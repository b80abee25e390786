import UnionFS.Proofs.Export.Refusal
import UnionFS.Proofs.Export.Success
import UnionFS.Proofs.Session.Writes
import UnionFS.Proofs.Wire.Readers

/-!
# Requests in step with the stream

What a server makes of the bytes behind a command, whatever they are.  `Attends` is the grammar of a
request that is heard to its end, with what is sent for it and what it writes.  Serving goes through
exactly the bytes of one request (`feed_serve_of_attends`) or stops within it, and then it has said
at most that the file is open (`feed_serve`).  `Aligned` puts this together.
-/

namespace UnionFS

open Dialogue Wire

namespace Command

/-- The commands that ask for an operation on files. -/
def isRequest : Command → Bool
  | getattr | access | readdir | read | write | openFile => true
  | _ => false

/-- How many bytes of arguments follow the path. -/
def argumentWidth : Command → Nat
  | access | openFile => 4
  | read | write => 16
  | _ => 0

end Command

namespace Request

variable {r : Request}

theorem isRequest_command (r : Request) : r.command.isRequest = true := by
  cases r <;> rfl

theorem length_arguments (r : Request) : r.arguments.length = r.command.argumentWidth := by
  cases r <;> simp [arguments, command, Command.argumentWidth, ofMask, ofSize]

end Request

/-- Any bytes behind their length. -/
def Wire.ofBlock (block : Bytes) : Bytes :=
  ofSize (UInt64.ofNat block.length) ++ block

namespace Export

/-! ## The grammar of served requests -/

/-- The path that these bytes stand for. -/
def pathOf (path : Bytes) : Outcome String :=
  match Utf8.decode path with
  | some path => .ok path
  | none => .error .illegalSequence

/-- The tree after these writes, one after another. -/
def carryOut (e : Export) (t : Tree) (writes : List Request) : Tree :=
  writes.foldl (fun t r => (e.perform t r).2) t

/-- For a command these bytes are heard to their end on the tree `t`, those are sent, and this is
what is written. -/
inductive Attends (e : Export) (t : Tree) :
    Command → (heard sent : Bytes) → (writes : List Request) → Prop where
  /-- The path is no text, which the reply says once the arguments are there. -/
  | notText {c : Command} {path arguments : Bytes} :
    c.isRequest = true → path.length ≤ e.maxPath.toNat → Utf8.decode path = none →
    arguments.length = c.argumentWidth →
    Attends e t c (ofBlock path ++ arguments) (ofCode .illegalSequence) []
  | atOnce {r : Request} :
    r.command ≠ .write → (Utf8.encode r.path).length ≤ e.maxPath.toNat →
    Attends e t r.command (ofText r.path ++ r.arguments) (e.response t r) []
  | refused {path : String} {size offset : UInt64} {c : Code} :
    (Utf8.encode path).length ≤ e.maxPath.toNat → e.openForWrite t path size = .error c →
    Attends e t .write (ofText path ++ (ofSize size ++ ofSize offset)) (ofCode c) []
  | written {path : String} {size offset : UInt64} {q : Path} {data : Bytes} :
    (Utf8.encode path).length ≤ e.maxPath.toNat → e.openForWrite t path size = .ok q →
    data.length = size.toNat →
    Attends e t .write (ofText path ++ (ofSize size ++ ofSize offset) ++ data)
      (ofCode 0 ++ replySize (writeAt q offset data t).1) [.write path data offset]

/-- The complete replies to a command. -/
inductive Reply : Command → Bytes → Prop where
  | refused {command : Command} {c : Code} : c < 0 → Reply command (ofCode c)
  | stat (stat : Stat) : Reply .getattr (ofCode 0 ++ ofStat stat)
  | access : Reply .access (ofCode 0)
  | openFile : Reply .openFile (ofCode 0)
  | entries (entries : List Entry) :
    Reply .readdir
      (ofCode 0 ++ ofSize (UInt64.ofNat entries.length) ++ entries.flatMap ofEntry)
  | data (data : Bytes) :
    Reply .read (ofCode (Int64.ofNat data.length) ++ ofSize (UInt64.ofNat data.length) ++ data)
  /-- The file was opened, and the data could not be written to it. -/
  | unwritten {c : Code} : c < 0 → Reply .write (ofCode 0 ++ ofCode c)
  | written (count : UInt64) : Reply .write (ofCode 0 ++ (ofCode 0 ++ ofSize count))

/-- The bytes of one request: a path behind its length, the arguments and, if and only if a write
was told to go on, as many data as it announced. -/
def Framed (e : Export) (c : Command) (heard sent : Bytes) : Prop :=
  ∃ path arguments data : Bytes,
    heard = ofBlock path ++ (arguments ++ data) ∧ path.length ≤ e.maxPath.toNat ∧
      arguments.length = c.argumentWidth ∧
      data.length =
        if c = .write ∧ ofCode 0 <+: sent then Bytes.toNat (arguments.take 8) else 0

variable {e : Export} {t : Tree} {c : Command} {heard sent : Bytes} {writes : List Request}

/-- What is answered at once is one reply. -/
theorem reply_response (e : Export) (t : Tree) {r : Request} (hr : r.command ≠ .write) :
    Reply r.command (e.response t r) := by
  have hrefuses := e.refuses_perform t r
  cases r with
  | getattr path =>
      rw [response]
      cases h : e.getattr t path with
      | ok stat => exact .stat stat
      | error c => exact .refused (hrefuses c h)
  | access path mask =>
      rw [response]
      cases h : e.access t path mask with
      | ok a => exact .access
      | error c => exact .refused (hrefuses c h)
  | readdir path =>
      rw [response]
      cases h : e.readdir t path with
      | ok entries => exact .entries entries
      | error c => exact .refused (hrefuses c h)
  | read path size offset =>
      rw [response]
      cases h : e.read t path size offset with
      | ok data => exact .data data
      | error c => exact .refused (hrefuses c h)
  | write path data offset => exact absurd rfl hr
  | openFile path flags =>
      rw [response]
      cases h : e.openFile t path flags with
      | ok a => exact .openFile
      | error c => exact .refused (hrefuses c h)

theorem Attends.isRequest (h : e.Attends t c heard sent writes) : c.isRequest = true := by
  cases h with
  | notText hc => exact hc
  | @atOnce r => exact r.isRequest_command
  | refused | written => rfl

/-- **What is sent for a request is one complete reply to its command.** -/
theorem Attends.reply (h : e.Attends t c heard sent writes) : Reply c sent := by
  cases h with
  | notText => exact .refused (by decide)
  | atOnce hr => exact reply_response e t hr
  | refused _ hopen => exact .refused (e.refuses_openForWrite t _ _ _ hopen)
  | @written path size offset q data _ _ _ =>
      cases h : (writeAt q offset data t).1 with
      | ok count => exact .written count
      | error c => exact .unwritten (refuses_writeAt t q offset data c h)

theorem ofCode_not_prefix {c : Code} (hc : c < 0) : ¬ ofCode 0 <+: ofCode c := by
  rintro ⟨more, h⟩
  rw [← List.append_nil (ofCode c)] at h
  obtain ⟨rfl, -⟩ := ofCode_append_inj h
  exact absurd hc (by decide)

/-- **What is heard of a request is its frame.** -/
theorem Attends.framed (h : e.Attends t c heard sent writes) : e.Framed c heard sent := by
  cases h with
  | @notText _ path arguments _ hlen _ hwidth =>
      refine ⟨path, arguments, [], by rw [List.append_nil], hlen, hwidth, ?_⟩
      rw [if_neg fun h => ofCode_not_prefix (by decide) h.2]
      rfl
  | @atOnce r hr hlen =>
      refine ⟨_, r.arguments, [], by rw [List.append_nil]; rfl, hlen, r.length_arguments, ?_⟩
      rw [if_neg fun h => hr h.1]
      rfl
  | @refused path size offset c hlen hopen =>
      refine ⟨_, ofSize size ++ ofSize offset, [], by rw [List.append_nil]; rfl, hlen, rfl, ?_⟩
      rw [if_neg fun h => ofCode_not_prefix (e.refuses_openForWrite t _ _ _ hopen) h.2]
      rfl
  | @written path size offset q data hlen _ hdata =>
      refine ⟨_, ofSize size ++ ofSize offset, data, List.append_assoc .., hlen, rfl, ?_⟩
      have hsize : size.toNat < 256 ^ 8 := size.toNat_lt
      have hwidth : (ofSize size).length = 8 := Bytes.length_ofNat ..
      rw [if_pos ⟨rfl, List.prefix_append _ _⟩, hdata, List.take_left' hwidth, ofSize,
        Bytes.toNat_ofNat hsize]

/-! ## Reading requests -/

theorem readPath_eq (e : Export) :
    e.readPath = do
      let length ← readSize
      let path ← readBlock length e.maxPath
      return pathOf path := by
  unfold readPath pathOf
  congr
  funext length
  congr
  funext path
  cases Utf8.decode path <;> rfl

theorem reads_path_iff {b : Bytes} {o : Outcome String} :
    Reads e.readPath b o ↔
      ∃ path, path.length ≤ e.maxPath.toNat ∧ b = ofBlock path ∧ o = pathOf path := by
  rw [readPath_eq, reads_bind_iff]
  constructor
  · rintro ⟨length, _, path, hlength, hpath, rfl⟩
    obtain ⟨_, hblock, rfl⟩ := reads_map_iff.mp hpath
    obtain rfl := reads_size_iff.mp hlength
    obtain ⟨hle, rfl, hlen⟩ := reads_block_iff.mp hblock
    refine ⟨path, by rw [hlen]; exact UInt64.le_iff_toNat_le.mp hle, ?_, rfl⟩
    rw [ofBlock, hlen, UInt64.ofNat_toNat]
  · rintro ⟨path, hlen, rfl, rfl⟩
    exact ⟨_, _, _, reads_size _, (reads_block hlen).map pathOf, rfl⟩

theorem reader_path (e : Export) : Reader e.readPath := by
  rw [readPath_eq]
  exact reader_size.bind fun length => (reader_block length e.maxPath).map pathOf

/-- What follows the path of a request that is answered at once, as what it makes of the path. -/
def readRest : Command → Dialogue Tree (String → Request)
  | .access => do
    let mask ← readMask
    return fun path => .access path mask
  | .readdir => return .readdir
  | .read => do
    let size ← readSize
    let offset ← readSize
    return fun path => .read path size offset
  | .openFile => do
    let flags ← readMask
    return fun path => .openFile path flags
  | _ => return .getattr

theorem reader_rest (c : Command) : Reader (readRest c) := by
  cases c with
  | access | openFile => exact reader_mask.map _
  | read => exact reader_size.bind fun size => reader_size.map _
  | _ => exact trivial

/-- What has been read behind the path are the arguments of a request. -/
theorem request_of_reads {b : Bytes} {request : String → Request} (hc : c.isRequest = true)
    (hw : c ≠ .write) (h : Reads (readRest c) b request) (path : String) :
    (request path).command = c ∧ (request path).path = path ∧ (request path).arguments = b := by
  cases c with
  | getattr | readdir =>
      obtain ⟨rfl, rfl⟩ := reads_done_iff.mp h
      exact ⟨rfl, rfl, rfl⟩
  | access | openFile =>
      obtain ⟨mask, hmask, rfl⟩ := reads_map_iff.mp h
      exact ⟨rfl, rfl, (reads_mask_iff.mp hmask).symm⟩
  | read =>
      obtain ⟨size, _, _, hsize, hrest, rfl⟩ := reads_bind_iff.mp h
      obtain ⟨offset, hoffset, rfl⟩ := reads_map_iff.mp hrest
      obtain rfl := reads_size_iff.mp hsize
      obtain rfl := reads_size_iff.mp hoffset
      exact ⟨rfl, rfl, rfl⟩
  | write => exact absurd rfl hw
  | _ => cases hc

/-- The arguments of a request are read back. -/
theorem reads_rest {r : Request} (hr : r.command ≠ .write) :
    ∃ request, Reads (readRest r.command) r.arguments request ∧ request r.path = r := by
  cases r with
  | getattr path | readdir path => exact ⟨_, .done _, rfl⟩
  | access path mask | openFile path mask => exact ⟨_, (reads_mask mask).map _, rfl⟩
  | read path size offset =>
      exact ⟨_, (reads_size size).bind ((reads_size offset).map _), rfl⟩
  | write path data offset => exact absurd rfl hr

/-- And so are any bytes of their width. -/
theorem exists_reads_rest {b : Bytes} (hc : c.isRequest = true) (hw : c ≠ .write)
    (hlen : b.length = c.argumentWidth) : ∃ request, Reads (readRest c) b request := by
  cases c with
  | getattr | readdir =>
      obtain rfl := List.eq_nil_of_length_eq_zero hlen
      exact ⟨_, .done _⟩
  | access | openFile =>
      obtain ⟨mask, rfl⟩ := exists_ofMask hlen
      exact ⟨_, (reads_mask mask).map _⟩
  | read =>
      obtain ⟨size, offset, rfl⟩ := exists_ofSizes hlen
      exact ⟨_, (reads_size size).bind ((reads_size offset).map _)⟩
  | write => exact absurd rfl hw
  | _ => cases hc

/-- A request that is answered at once, as far as its path is text. -/
def readRequest (e : Export) (c : Command) : Dialogue Tree (Outcome Request) := do
  let path ← e.readPath
  return path.map (← readRest c)

/-- The reply to it. -/
def answer (e : Export) (t : Tree) : Outcome Request → Bytes
  | .ok r => e.response t r
  | .error c => ofCode c

theorem serve_atOnce (e : Export) (hc : c.isRequest = true) (hw : c ≠ .write) :
    e.serve c = (do
      let r ← e.readRequest c
      .say (← .inspect fun t => e.answer t r)) := by
  cases c with
  | write => exact absurd rfl hw
  | getattr | access | readdir | read | openFile =>
      simp only [serve, readRequest, readRest, LawfulMonad.bind_assoc, LawfulMonad.pure_bind]
      congr
      funext path
      cases path <;> rfl
  | _ => cases hc

theorem reader_request (e : Export) (c : Command) : Reader (e.readRequest c) :=
  (reader_path e).bind fun path => (reader_rest c).map path.map

theorem reads_request_iff {b : Bytes} {o : Outcome Request} :
    Reads (e.readRequest c) b o ↔
      ∃ path arguments request, path.length ≤ e.maxPath.toNat ∧
        Reads (readRest c) arguments request ∧ b = ofBlock path ++ arguments ∧
          o = (pathOf path).map request := by
  rw [readRequest, reads_bind_iff]
  constructor
  · rintro ⟨_, _, arguments, hpath, hrest, rfl⟩
    obtain ⟨path, hlen, rfl, rfl⟩ := reads_path_iff.mp hpath
    obtain ⟨request, hrequest, rfl⟩ := reads_map_iff.mp hrest
    exact ⟨path, arguments, request, hlen, hrequest, rfl, rfl⟩
  · rintro ⟨path, arguments, request, hlen, hrequest, rfl, rfl⟩
    exact ⟨_, _, _, reads_path_iff.mpr ⟨path, hlen, rfl, rfl⟩, hrequest.map _, rfl⟩

theorem reader_writeArguments (e : Export) : Reader e.readWriteArguments :=
  (reader_path e).bind fun _ => reader_size.bind fun _ => reader_size.map _

theorem reads_writeArguments_iff {b : Bytes} {o : Outcome String} {size offset : UInt64} :
    Reads e.readWriteArguments b (o, size, offset) ↔
      ∃ path, path.length ≤ e.maxPath.toNat ∧
        b = ofBlock path ++ (ofSize size ++ ofSize offset) ∧ o = pathOf path := by
  rw [readWriteArguments, reads_bind_iff]
  constructor
  · rintro ⟨_, _, _, hpath, hrest, rfl⟩
    obtain ⟨path, hlen, rfl, rfl⟩ := reads_path_iff.mp hpath
    obtain ⟨_, _, _, hsize, hlast, rfl⟩ := reads_bind_iff.mp hrest
    obtain ⟨_, hoffset, hvalue⟩ := reads_map_iff.mp hlast
    cases hvalue
    rw [reads_size_iff.mp hsize, reads_size_iff.mp hoffset]
    exact ⟨path, hlen, rfl, rfl⟩
  · rintro ⟨path, hlen, rfl, rfl⟩
    exact ⟨_, _, _, reads_path_iff.mpr ⟨path, hlen, rfl, rfl⟩,
      (reads_size size).bind ((reads_size offset).map _), rfl⟩

/-! ## Requests that are answered at once -/

/-- What has been read of such a request is one. -/
theorem attends_of_reads {o : Outcome Request} (hc : c.isRequest = true) (hw : c ≠ .write)
    (h : Reads (e.readRequest c) heard o) : e.Attends t c heard (e.answer t o) [] := by
  obtain ⟨path, arguments, request, hlen, hrest, rfl, rfl⟩ := reads_request_iff.mp h
  have hrequest := request_of_reads hc hw hrest
  rw [pathOf]
  cases hpath : Utf8.decode path with
  | none =>
      refine .notText hc hlen hpath ?_
      obtain ⟨hcommand, -, harguments⟩ := hrequest ""
      rw [← harguments, Request.length_arguments, hcommand]
  | some text =>
      obtain ⟨rfl, htext, rfl⟩ := hrequest text
      obtain rfl := Utf8.eq_encode_of_decode hpath
      have hatOnce : e.Attends t _ _ (e.response t (request text)) [] :=
        .atOnce hw (by rw [htext]; exact hlen)
      rwa [htext] at hatOnce

theorem Attends.reads (h : e.Attends t c heard sent writes) (hw : c ≠ .write) :
    ∃ o, Reads (e.readRequest c) heard o ∧ sent = e.answer t o ∧ writes = [] := by
  cases h with
  | @notText _ path arguments hc hlen hpath hwidth =>
      obtain ⟨request, hrest⟩ := exists_reads_rest hc hw hwidth
      refine ⟨_, reads_request_iff.mpr ⟨path, arguments, request, hlen, hrest, rfl, rfl⟩, ?_, rfl⟩
      rw [pathOf, hpath]
      rfl
  | @atOnce r hr hlen =>
      obtain ⟨request, hrest, hrequest⟩ := reads_rest hr
      refine ⟨_, reads_request_iff.mpr ⟨_, _, request, hlen, hrest, rfl, rfl⟩, ?_, rfl⟩
      rw [pathOf, Utf8.decode_encode]
      show _ = e.response t (request r.path)
      rw [hrequest]
  | refused | written => exact absurd rfl hw

theorem feed_serve_of_reads {o : Outcome Request} (hc : c.isRequest = true) (hw : c ≠ .write)
    (h : Reads (e.readRequest c) heard o) (rest : Bytes) (t : Tree) :
    (e.serve c).feed (heard ++ rest) t = ⟨.done (), e.answer t o, rest, t⟩ := by
  rw [serve_atOnce e hc hw, h.feed_bind]
  exact feed_answer _ _ rest t

/-! ## Writes -/

variable {o : Outcome String} {size offset : UInt64}

/-- A write is refused for its path or by what it leads to. -/
theorem attends_refused {code : Code} (h : Reads e.readWriteArguments heard (o, size, offset))
    (hopen : o.bind (e.openForWrite t · size) = .error code) :
    e.Attends t .write heard (ofCode code) [] := by
  obtain ⟨path, hlen, rfl, rfl⟩ := reads_writeArguments_iff.mp h
  rw [pathOf] at hopen
  cases hpath : Utf8.decode path with
  | none =>
      rw [hpath] at hopen
      cases hopen
      exact .notText rfl hlen hpath rfl
  | some text =>
      rw [hpath] at hopen
      obtain rfl := Utf8.eq_encode_of_decode hpath
      exact .refused hlen hopen

theorem attends_written {q : Path} {data : Bytes}
    (h : Reads e.readWriteArguments heard (o, size, offset))
    (hopen : o.bind (e.openForWrite t · size) = .ok q) (hdata : data.length = size.toNat) :
    ∃ path, e.Attends t .write (heard ++ data) (ofCode 0 ++ replySize (writeAt q offset data t).1)
      [.write path data offset] := by
  obtain ⟨path, hlen, rfl, rfl⟩ := reads_writeArguments_iff.mp h
  rw [pathOf] at hopen
  cases hpath : Utf8.decode path with
  | none =>
      rw [hpath] at hopen
      cases hopen
  | some text =>
      rw [hpath] at hopen
      obtain rfl := Utf8.eq_encode_of_decode hpath
      exact ⟨text, .written hlen hopen hdata⟩

theorem feed_refused {code : Code} (h : Reads e.readWriteArguments heard (o, size, offset))
    (hopen : o.bind (e.openForWrite t · size) = .error code) (rest : Bytes) :
    (e.serve .write).feed (heard ++ rest) t = ⟨.done (), ofCode code, rest, t⟩ := by
  rw [serve_write, h.feed_bind, answerWrite, feed_inspect, hopen]
  exact feed_say _ _ _

theorem feed_opened {q : Path} (h : Reads e.readWriteArguments heard (o, size, offset))
    (hopen : o.bind (e.openForWrite t · size) = .ok q) (rest : Bytes) :
    (e.serve .write).feed (heard ++ rest) t =
      (let p := (e.takeData q size offset).feed rest t
       { p with sent := ofCode 0 ++ p.sent }) := by
  rw [serve_write, h.feed_bind, answerWrite, feed_inspect, hopen]
  exact feed_say_bind _ _ _ _

/-- A write that was opened is carried out with its data. -/
theorem carryOut_written {path : String} {q : Path} {data : Bytes}
    (hopen : e.openForWrite t path size = .ok q) (hdata : data.length = size.toNat) :
    e.carryOut t [.write path data offset] = (writeAt q offset data t).2 := by
  rw [carryOut, List.foldl_cons, List.foldl_nil, perform, write, hdata, UInt64.ofNat_toNat, hopen]

theorem feed_written {path : String} {q : Path} {data : Bytes}
    (h : Reads e.readWriteArguments heard (.ok path, size, offset))
    (hopen : e.openForWrite t path size = .ok q) (hdata : data.length = size.toNat)
    (rest : Bytes) :
    (e.serve .write).feed (heard ++ data ++ rest) t =
      ⟨.done (), ofCode 0 ++ replySize (writeAt q offset data t).1, rest,
        e.carryOut t [.write path data offset]⟩ := by
  have hmax : size ≤ e.maxIo := (openForWrite_eq_ok.mp hopen).1
  have hblock : Reads (readBlock (σ := Tree) size e.maxIo) data data :=
    reads_block_iff.mpr ⟨hmax, rfl, hdata⟩
  have htake : (e.takeData q size offset).feed (data ++ rest) t = _ :=
    (hblock.feed_bind _ rest t).trans (feed_change _ _ _ _)
  rw [List.append_assoc, feed_opened h hopen, htake, carryOut_written hopen hdata]

/-- What is heard of a write, and what comes of it. -/
theorem Attends.write_cases (h : e.Attends t c heard sent writes) (hc : c = .write) :
    ∃ arguments data o size offset, heard = arguments ++ data ∧
      Reads e.readWriteArguments arguments (o, size, offset) ∧
      ((∃ code, o.bind (e.openForWrite t · size) = .error code ∧ data = [] ∧
          sent = ofCode code ∧ writes = []) ∨
        ∃ path q, o = .ok path ∧ e.openForWrite t path size = .ok q ∧
          data.length = size.toNat ∧ sent = ofCode 0 ++ replySize (writeAt q offset data t).1 ∧
          writes = [.write path data offset]) := by
  cases h with
  | @notText _ path arguments _ hlen hpath hwidth =>
      subst hc
      -- the arguments are read although the path is no text
      obtain ⟨size, offset, rfl⟩ := exists_ofSizes hwidth
      refine ⟨_, [], pathOf path, size, offset, (List.append_nil _).symm,
        reads_writeArguments_iff.mpr ⟨path, hlen, rfl, rfl⟩,
        .inl ⟨.illegalSequence, ?_, rfl, rfl, rfl⟩⟩
      rw [pathOf, hpath]
      rfl
  | atOnce hr => exact absurd hc hr
  | @refused path size offset code hlen hopen =>
      exact ⟨_, [], _, size, offset, (List.append_nil _).symm,
        reads_writeArguments size offset hlen, .inl ⟨code, hopen, rfl, rfl, rfl⟩⟩
  | @written path size offset q data hlen hopen hdata =>
      exact ⟨_, data, _, size, offset, rfl, reads_writeArguments size offset hlen,
        .inr ⟨path, q, rfl, hopen, hdata, rfl, rfl⟩⟩

/-! ## Serving -/

/-- **Serving goes through the bytes of one request**, and leaves what comes behind it. -/
theorem feed_serve_of_attends (h : e.Attends t c heard sent writes) (rest : Bytes) :
    (e.serve c).feed (heard ++ rest) t = ⟨.done (), sent, rest, e.carryOut t writes⟩ := by
  by_cases hw : c = .write
  · obtain ⟨arguments, data, o, size, offset, rfl, hread, hwrites⟩ := h.write_cases hw
    subst hw
    rcases hwrites with ⟨code, hopen, rfl, rfl, rfl⟩ | ⟨path, q, rfl, hopen, hdata, rfl, rfl⟩
    · rw [List.append_nil]
      exact feed_refused hread hopen rest
    · exact feed_written hread hopen hdata rest
  · obtain ⟨o, hread, rfl, rfl⟩ := h.reads hw
    exact feed_serve_of_reads h.isRequest hw hread rest t

/-- **Whatever follows a command, serving it goes through one request or stops within it**, and then
it has said at most that a file is open. -/
theorem feed_serve (e : Export) (hc : c.isRequest = true) (input : Bytes) (t : Tree) :
    (∃ heard sent writes rest, input = heard ++ rest ∧ e.Attends t c heard sent writes ∧
        (e.serve c).feed input t = ⟨.done (), sent, rest, e.carryOut t writes⟩) ∨
      ∃ sent, ((e.serve c).feed input t).Stalled sent t ∧
        (sent = [] ∨ c = .write ∧ sent = ofCode 0) := by
  by_cases hw : c = .write
  · subst hw
    rcases (reader_writeArguments e).feed_bind e.answerWrite input t with
      ⟨heard, ⟨o, size, offset⟩, rest, hread, rfl, -⟩ | hstalled
    · cases hopen : o.bind (e.openForWrite t · size) with
      | error code =>
          exact .inl ⟨heard, _, [], rest, rfl, attends_refused hread hopen,
            feed_refused hread hopen rest⟩
      | ok q =>
          -- the data are there, or they are waited for
          rcases (reader_block size e.maxIo).feed_bind
              (fun data => do Dialogue.say (replySize (← .update (writeAt q offset data))))
              rest t with ⟨data, _, rest, hblock, rfl, -⟩ | hstalled
          · obtain ⟨-, rfl, hdata⟩ := reads_block_iff.mp hblock
            obtain ⟨path, hattends⟩ := attends_written hread hopen hdata
            refine .inl ⟨_, _, _, rest, (List.append_assoc ..).symm, hattends, ?_⟩
            rw [← List.append_assoc]
            exact feed_serve_of_attends hattends rest
          · -- the client has been told to go on, and nothing has been written
            refine .inr ⟨ofCode 0, ?_, .inr ⟨rfl, rfl⟩⟩
            rw [feed_opened hread hopen]
            exact hstalled.after (ofCode 0)
    · rw [serve_write]
      exact .inr ⟨[], hstalled, .inl rfl⟩
  · rcases (reader_request e c).feed_bind (fun r => do .say (← .inspect fun t => e.answer t r))
        input t with ⟨heard, o, rest, hread, rfl, -⟩ | hstalled
    · exact .inl ⟨heard, _, [], rest, rfl, attends_of_reads hc hw hread,
        feed_serve_of_reads hc hw hread rest t⟩
    · rw [serve_atOnce e hc hw]
      exact .inr ⟨[], hstalled, .inl rfl⟩

/-- Too long a path is given up at its length. -/
theorem feed_serve_tooLong (e : Export) (hc : c.isRequest = true) (t : Tree) {length : UInt64}
    (hlong : e.maxPath < length) (rest : Bytes) :
    (e.serve c).feed (ofSize length ++ rest) t =
      ⟨.fail (.lengthExceeded .payload length e.maxPath), [], rest, t⟩ := by
  obtain ⟨k, hserve⟩ : ∃ k, e.serve c = e.readPath >>= k := by
    cases c with
    | getattr | access | readdir | read | write | openFile => exact ⟨_, rfl⟩
    | _ => cases hc
  rw [hserve, readPath, LawfulMonad.bind_assoc, (reads_size length).feed_bind, readBlock,
    if_pos hlong]
  rfl

/-- The rest of a request with command `c` is served in step with the stream, on the tree `t`. -/
structure Aligned (e : Export) (c : Command) (t : Tree) : Prop where
  /-- On any input, serving comes to its end with exactly one request taken and exactly one reply
  sent, or it gives the stream up, with the tree as it was and nothing sent but possibly the word
  that a file is open. -/
  served : ∀ input, let o := (e.serve c).runOn input t
    (o.result = .ok () ∧ ∃ heard writes, input = heard ++ o.unread ∧ e.Framed c heard o.sent ∧
        Reply c o.sent ∧ e.Attends t c heard o.sent writes ∧ o.state = e.carryOut t writes) ∨
      ∃ error, o.result = .error error ∧ error.isFatal = true ∧ o.state = t ∧
        (o.sent = [] ∨ c = .write ∧ o.sent = ofCode 0)
  /-- A request that is there is served, whatever follows it. -/
  taken : ∀ heard sent writes rest, e.Attends t c heard sent writes →
    (e.serve c).runOn (heard ++ rest) t = ⟨.ok (), sent, rest, e.carryOut t writes⟩
  /-- A path that is no text is refused once the arguments are there. -/
  notText : ∀ path arguments rest, path.length ≤ e.maxPath.toNat → Utf8.decode path = none →
    arguments.length = c.argumentWidth →
    (e.serve c).runOn (ofBlock path ++ arguments ++ rest) t =
      ⟨.ok (), ofCode .illegalSequence, rest, t⟩
  /-- Of too long a path nothing but its length is taken. -/
  tooLong : ∀ length rest, e.maxPath < length →
    (e.serve c).runOn (ofSize length ++ rest) t =
      ⟨.error (.lengthExceeded .payload length e.maxPath), [], rest, t⟩

/-- **Whatever follows the command of a request, the stream stays in step or is given up.** -/
theorem aligned_serve (e : Export) (t : Tree) (hc : c.isRequest = true) : e.Aligned c t where
  served := by
    intro input
    rcases feed_serve e hc input t with
      ⟨heard, sent, writes, rest, rfl, hattends, hfeed⟩ | ⟨sent, hstalled, hsent⟩
    · rw [runOn, hfeed]
      exact .inl ⟨rfl, heard, writes, rfl, hattends.framed, hattends.reply, hattends, rfl⟩
    · obtain ⟨error, hfatal, hresult, rfl, hstate⟩ := hstalled.close
      exact .inr ⟨error, hresult, hfatal, hstate, hsent⟩
  taken := by
    intro heard sent writes rest h
    rw [runOn, feed_serve_of_attends h rest]
    rfl
  notText := by
    intro path arguments rest hlen hpath hwidth
    rw [runOn, feed_serve_of_attends (.notText hc hlen hpath hwidth) rest]
    rfl
  tooLong := by
    intro length rest hlong
    rw [runOn, feed_serve_tooLong e hc t hlong rest]
    rfl

/-- A directory with one file, which the superuser may write to. -/
theorem aligned_serve_write :
    Command.write.isRequest = true ∧
      Aligned ⟨[], ⟨"root", 0, 0⟩, 4096, 8⟩ .write
        { nodes := [([], { content := .directory, permissions := 0o755 }),
            ([[102]], { content := .file [1, 2, 3], permissions := 0o644 })] } :=
  ⟨rfl, aligned_serve _ _ rfl⟩

/-- The one byte of the path is no text, and the next command is left. -/
example : (serve ⟨[], ⟨"root", 0, 0⟩, 4096, 8⟩ .access).runOn
    ([0, 0, 0, 0, 0, 0, 0, 1] ++ [255] ++ [0, 0, 0, 4] ++ [0, 2]) { nodes := [] } =
      ⟨.ok (), ofCode .illegalSequence, [0, 2], { nodes := [] }⟩ :=
  rfl

end Export
end UnionFS
