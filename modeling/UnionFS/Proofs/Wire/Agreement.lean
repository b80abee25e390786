import UnionFS.Proofs.Client.Replies

/-!
# Agreement over the wire

A client makes calls one after another over one stream, and a server attends to them one after
another.  Neither end frames what it sends: each has to read exactly what the other wrote, on every
branch.  A field too many on one of them would shift all that follows.

* `Call` is what one call comes to: what the client gets and what it leaves behind on the stream;
* `callEach` makes the calls over the stream, `performEach` performs them one after another on the
  tree, with no stream at all;
* the two agree, by induction over the calls.  What carries the induction is that the server is back
  where it started, with nothing unread in either direction (`converse_exchange`).
-/

namespace UnionFS

open Dialogue Wire Client

namespace Client

/-- A call, what it comes to, and what is left of it. -/
structure Call where
  request : Request
  /-- What the client gets, if it gets anything. -/
  result : Option (Except WireError (Outcome request.Answer))
  /-- The server's tree after the call. -/
  tree : Tree
  /-- What was sent to the server and not read by it. -/
  unheard : Bytes
  /-- What the server sent and the client did not read. -/
  unread : Bytes
  /-- All that the client sent. -/
  said : Bytes
  /-- All that the client read. -/
  heard : Bytes

/-- The code `c` is the last that is sent for the call, and no data were sent unless the file of a
write had been opened before. -/
structure Call.EndsIn (call : Call) (c : Code) : Prop where
  negative : c < 0
  last : (call.said = opening call.request ∧ call.heard = ofCode c)
    ∨ ∃ path data offset, call.request = .write path data offset
      ∧ Export.offsetLimit ≤ offset.toNat
      ∧ call.said = opening call.request ++ data ∧ call.heard = ofCode 0 ++ ofCode c

/-- Calls one after another, to a far end that is left as the earlier calls leave it. -/
def callEach {α : Type} (limits : Limits) : Progress Tree α → List Request → List Call
  | _, [] => []
  | far, r :: rs =>
    let c := (exchange limits r).converse () far
    ⟨r, c.near.outcome?, c.far.state, c.far.unread, c.far.sent, c.said, c.heard⟩ ::
      callEach limits c.far rs

end Client

namespace Export

/-- As many requests one after another. -/
def attendEach (e : Export) : Nat → Dialogue Tree Unit
  | 0 => .done ()
  | n + 1 => do e.attend; e.attendEach n

/-- The requests performed one after another on a tree.  Nothing stays behind on the stream, data
are sent for a write whose file was opened, and nothing follows a refusal. -/
def performEach (e : Export) (t : Tree) : List Request → List Call
  | [] => []
  | r :: rs =>
    let (outcome, t') := e.perform t r
    ⟨r, some (.ok outcome), t', [], [], opening r ++ e.payload t r, e.response t r⟩ ::
      e.performEach t' rs

/-- A call that keeps within what both ends take. -/
structure Fits (e : Export) (limits : Limits) (t : Tree) (r : Request) : Prop where
  path : (Utf8.encode r.path).length ≤ e.maxPath.toNat
  answer : limits.Takes r (e.perform t r).1
  data : r.data.length < blockLimit

/-- Each call keeps within what both ends take, as the earlier ones left the tree. -/
def FitsEach (e : Export) (limits : Limits) (t : Tree) : List Request → Prop
  | [] => True
  | r :: rs => e.Fits limits t r ∧ e.FitsEach limits (e.perform t r).2 rs

variable {e : Export} {limits : Limits}

/-- Between two calls the server waits for a command. -/
theorem feed_attendEach_nil (e : Export) (n : Nat) (t : Tree) :
    (e.attendEach n).feed [] t = ⟨e.attendEach n, [], [], t⟩ := by
  cases n <;> rfl

/-- So what it has sent is what it sent before. -/
theorem sent_attendEach (e : Export) (n : Nat) (b : Bytes) (t : Tree) :
    (let p := (e.attendEach n).feed [] t
     { p with sent := b ++ p.sent }) = { (e.attendEach n).feed [] t with sent := b ++ [] } := by
  rw [feed_attendEach_nil]

/-- A server that has gone as far with this request as another dialogue would also attends to the
next ones as after that dialogue. -/
theorem feed_attendEach {d : Dialogue Tree Unit} {input rest : Bytes} {t s : Tree} (n : Nat)
    (h : e.attend.feed input t = d.feed rest s) :
    (e.attendEach (n + 1)).feed input t = (d.bind fun _ => e.attendEach n).feed rest s := by
  show (e.attend.bind fun _ => e.attendEach n).feed input t = _
  rw [feed_bind, h, ← feed_bind]

theorem feed_attendEach_of_ne_write {r : Request} {t : Tree} (n : Nat)
    (hp : (Utf8.encode r.path).length ≤ e.maxPath.toNat)
    (hr : ∀ path data offset, r ≠ .write path data offset) :
    (e.attendEach (n + 1)).feed (opening r) t =
      { (e.attendEach n).feed [] t with sent := e.response t r ++ [] } := by
  have h := feed_attend_of_ne_write [] t hp hr
  rw [List.append_nil, ← feed_say] at h
  rw [feed_attendEach n h, feed_bind, feed_say]
  exact e.sent_attendEach n (e.response t r) t

variable {path : String} {data : Bytes} {offset : UInt64} {t : Tree}

theorem feed_attendEach_of_refused {c : Code} (n : Nat)
    (hp : (Utf8.encode path).length ≤ e.maxPath.toNat)
    (ho : e.openForWrite t path (UInt64.ofNat data.length) = .error c) :
    (e.attendEach (n + 1)).feed (opening (.write path data offset)) t =
      { (e.attendEach n).feed [] t with sent := ofCode c ++ [] } := by
  have h := feed_attend_write data offset [] t hp
  rw [List.append_nil, ho] at h
  rw [feed_attendEach n h, feed_bind, feed_say]
  exact e.sent_attendEach n (ofCode c) t

/-- Taking the data of a write whose file was opened, and attending to the next requests. -/
def takeDataThen (e : Export) (q : Path) (size offset : UInt64) (n : Nat) : Dialogue Tree Unit := do
  e.takeData q size offset
  e.attendEach n

theorem feed_attendEach_of_opened {q : Path} (n : Nat)
    (hp : (Utf8.encode path).length ≤ e.maxPath.toNat)
    (ho : e.openForWrite t path (UInt64.ofNat data.length) = .ok q) :
    (e.attendEach (n + 1)).feed (opening (.write path data offset)) t =
      (let p := (e.takeDataThen q (UInt64.ofNat data.length) offset n).feed [] t
       { p with sent := ofCode 0 ++ p.sent }) := by
  have h := feed_attend_write data offset [] t hp
  rw [List.append_nil, ho] at h
  rw [feed_attendEach n h]
  rfl

theorem feed_takeDataThen {q : Path} (n : Nat) (h : data.length ≤ e.maxIo.toNat) :
    (e.takeDataThen q (UInt64.ofNat data.length) offset n).feed data t =
      { (e.attendEach n).feed [] (writeAt q offset data t).2 with
        sent := replySize (writeAt q offset data t).1 ++ [] } := by
  show (Dialogue.bind _ fun _ => e.attendEach n).feed data t = _
  rw [feed_bind, feed_takeData t h]
  exact e.sent_attendEach n _ _

/-- What the client starts with is all that the server has to go by. -/
theorem converse_exchange_eq {σ α : Type} (r : Request) (s : σ) (d : Dialogue Tree α) (t : Tree) :
    (exchange limits r).converse s (d.feed [] t) =
      ((readReply limits r).converse s (d.feed (opening r) t)).after (opening r) [] := by
  show ((readReply limits r).converse s (Progress.hear _ (opening r))).after (opening r) [] = _
  rw [Progress.feed_hear, List.nil_append]

theorem payload_of_ne_write {r : Request} (hr : ∀ path data offset, r ≠ .write path data offset) :
    e.payload t r = [] := by
  cases r with
  | write path data offset => exact absurd rfl (hr path data offset)
  | _ => rfl

/-- **One call leaves the ends as it found them**, the server with one request fewer to come. -/
theorem converse_exchange {r : Request} (n : Nat) (h : e.Fits limits t r) :
    (exchange limits r).converse () ((e.attendEach (n + 1)).feed [] t) =
      { near := .done (e.perform t r).1, state := (),
        far := (e.attendEach n).feed [] (e.perform t r).2,
        said := opening r ++ e.payload t r, heard := e.response t r } := by
  rw [converse_exchange_eq]
  by_cases hr : ∀ path data offset, r ≠ .write path data offset
  · rw [feed_attendEach_of_ne_write n h.path hr, (reads_response hr h.answer).converse,
      perform_tree hr, payload_of_ne_write hr, feed_attendEach_nil]
    rfl
  · obtain ⟨path, data, offset, rfl⟩ : ∃ path data offset, r = .write path data offset := by
      simpa using hr
    have hp : (Utf8.encode path).length ≤ e.maxPath.toNat := h.path
    have hlen : data.length < blockLimit := h.data
    rw [perform, write, payload, response]
    cases ho : e.openForWrite t path (UInt64.ofNat data.length) with
    | error c =>
        -- the refusal is the only reply, and no data follow it
        have hc := e.refuses_openForWrite t path _ c ho
        rw [feed_attendEach_of_refused n hp ho, (reads_write_refused hc).converse,
          feed_attendEach_nil]
        rfl
    | ok q =>
        -- after the first code the client sends the data, and the server hears them at once
        have hio := length_le_of_openForWrite (Nat.lt_trans hlen (by decide)) ho
        have hw := reads_replySize (σ := Unit) (refuses_writeAt t q offset data)
        rw [feed_attendEach_of_opened n hp ho, converse_write_opened]
        dsimp only
        rw [Progress.feed_hear, List.nil_append, feed_takeDataThen n hio, hw.converse,
          feed_attendEach_nil]
        simp only [Conversation.after, List.append_nil, List.nil_append]

theorem response_of_refused {r : Request} {c : Code} (h : (e.perform t r).1 = .error c) :
    (e.payload t r = [] ∧ e.response t r = ofCode c)
      ∨ ∃ path data offset, r = .write path data offset ∧ offsetLimit ≤ offset.toNat
        ∧ e.payload t r = data ∧ e.response t r = ofCode 0 ++ ofCode c := by
  cases r with
  | getattr path => exact .inl ⟨rfl, congrArg replyStat h⟩
  | access path mask => exact .inl ⟨rfl, congrArg replyUnit h⟩
  | readdir path => exact .inl ⟨rfl, congrArg replyEntries h⟩
  | read path size offset => exact .inl ⟨rfl, congrArg replyData h⟩
  | openFile path flags => exact .inl ⟨rfl, congrArg replyUnit h⟩
  | write path data offset =>
      rw [payload, response]
      rw [perform, write] at h
      cases ho : e.openForWrite t path (UInt64.ofNat data.length) with
      | error c' =>
          rw [ho] at h
          cases h
          exact .inl ⟨rfl, rfl⟩
      | ok q =>
          -- the file was opened, so that only the offset can have been refused
          rw [ho] at h
          dsimp only at h ⊢
          rw [h]
          refine .inr ⟨path, data, offset, rfl, ?_, rfl, rfl⟩
          by_cases hlt : offset.toNat < offsetLimit
          · rw [writeAt, if_neg (by omega)] at h
            cases h
          · exact Nat.not_lt.mp hlt

/-- In the reference, as on the stream, a refusal ends its call. -/
theorem endsIn_of_mem_performEach {t : Tree} {rs : List Request} {call : Call} {c : Code}
    (hmem : call ∈ e.performEach t rs) (hc : call.result = some (.ok (.error c))) :
    call.EndsIn c := by
  induction rs generalizing t with
  | nil => cases hmem
  | cons r rs ih =>
      rcases List.mem_cons.mp hmem with rfl | hmem
      · have hr : (e.perform t r).1 = .error c := Except.ok.inj (Option.some.inj hc)
        refine ⟨e.refuses_perform t r c hr, ?_⟩
        rcases response_of_refused hr with ⟨hp, hs⟩ | ⟨path, data, offset, hw, ho, hp, hs⟩
        · exact .inl ⟨by rw [hp, List.append_nil], hs⟩
        · exact .inr ⟨path, data, offset, hw, ho, by rw [hp], hs⟩
      · exact ih hmem

/-- **Client and server agree on every sequence of calls.**  Made over the stream, each call gives
the client exactly what the request comes to on the tree as the earlier calls left it, and changes
the tree in the same way.  Nothing is left unread in either direction after any of them, and no data
are sent after a refusal. -/
theorem callEach_eq_performEach {t : Tree} {rs : List Request} (h : e.FitsEach limits t rs) :
    callEach limits ((e.attendEach rs.length).feed [] t) rs = e.performEach t rs
      ∧ ∀ call ∈ e.performEach t rs, ∀ c, call.result = some (.ok (.error c)) → call.EndsIn c := by
  refine ⟨?_, fun call hmem c => endsIn_of_mem_performEach hmem⟩
  -- over the calls, with the server waiting for a command before each of them
  induction rs generalizing t with
  | nil => rfl
  | cons r rs ih =>
      obtain ⟨hr, hrs⟩ := h
      rw [List.length_cons, callEach, converse_exchange rs.length hr]
      dsimp only
      rw [ih hrs, feed_attendEach_nil]
      rfl

theorem takes_read {t : Tree} {path : String} {size offset : UInt64}
    (h : size.toNat < blockLimit) :
    limits.Takes (.read path size offset) (e.perform t (.read path size offset)).1 := by
  show limits.Takes (.read path size offset) (e.read t path size offset)
  cases hr : e.read t path size offset with
  | error c => trivial
  | ok data => exact Nat.lt_of_le_of_lt (length_le_of_read hr) h

/-- An export of a directory with one file. -/
def sample : Export :=
  { root := [[100]], user := ⟨"root", 0, 0⟩, maxPath := 4096, maxIo := 8 }

def sampleTree : Tree :=
  { nodes := [([], { content := .directory, permissions := 0o755 }),
      ([[100]], { content := .directory, permissions := 0o755 }),
      ([[100], [102]], { content := .file [1, 2, 3], permissions := 0o644 })] }

/-- A refused read and a refused write between calls that are answered. -/
def sampleCalls : List Request :=
  [.getattr "/f", .read "/f" 9 0, .write "/f" [4, 5] 1, .write "/f" [0, 0, 0, 0, 0, 0, 0, 0, 0] 0,
    .read "/f" 8 0, .openFile "/g" 0]

theorem callEach_eq_performEach_sample :
    callEach ⟨4096, 16⟩ ((sample.attendEach sampleCalls.length).feed [] sampleTree) sampleCalls
        = sample.performEach sampleTree sampleCalls
      ∧ ∀ call ∈ sample.performEach sampleTree sampleCalls, ∀ c,
        call.result = some (.ok (.error c)) → call.EndsIn c := by
  refine callEach_eq_performEach ⟨⟨by decide, trivial, by decide⟩, ?_⟩
  refine ⟨⟨by decide, takes_read (by decide), by decide⟩, ?_⟩
  refine ⟨⟨by decide, trivial, by decide⟩, ⟨by decide, trivial, by decide⟩, ?_⟩
  exact ⟨⟨by decide, takes_read (by decide), by decide⟩, ⟨by decide, trivial, by decide⟩, trivial⟩

end Export
end UnionFS
