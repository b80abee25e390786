import UnionFS.Client.Split
import UnionFS.Proofs.Union.Overwriting

/-!
# Printing a file

A file is printed in blocks.  Where a server has opened it, each block is asked of that server, with
a tag or without, and in one exchange (`read_of_opened`, `readSplit_self`), from where the last block
ended, until a block comes empty (`Prints`).  So on servers whose files do not change (`Reading`),
however short the blocks are that they give, what is printed is always the start of the one file; it
is the whole file unless a read fails, and then printing fails too (`printing`).

Printing does not go on until offsets run out: every block that is not empty brings it nearer to the
end of the file, so there is at most one read more than the file has bytes.
-/

namespace UnionFS

/-- What a server may give of a file that it is asked to read: as many of the next bytes as it likes,
but none only at the end of the file. -/
structure Chunk (content : Bytes) (size offset : Nat) (block : Bytes) : Prop where
  next : block <+: content.drop offset
  ne_nil : 0 < size → offset < content.length → block ≠ []

namespace Chunk

variable {content block : Bytes} {size offset : Nat}

theorem length_le (h : Chunk content size offset block) :
    block.length ≤ content.length - offset := by
  have hle := h.next.length_le
  rwa [List.length_drop] at hle

theorem drop_eq (h : Chunk content size offset block) :
    content.drop offset = block ++ content.drop (offset + block.length) := by
  rw [← List.drop_drop]
  exact (List.prefix_iff_eq_append.mp h.next).symm

/-- Where nothing comes of what was asked for the file is at its end. -/
theorem length_le_of_nil (h : Chunk content size offset []) (hsize : 0 < size) :
    content.length ≤ offset :=
  Nat.not_lt.mp fun hlt => h.ne_nil hsize hlt rfl

end Chunk

/-- Servers with files that do not change, of which they give as much as they like at a time. -/
structure Reading {S : Type} (answer : (q : Inquiry) → S → q.Answer × S) (files : Files) : Prop
    where
  /-- No file is longer than offsets reach. -/
  fits : ∀ server path content, files server path = some content → content.length < 2 ^ 64
  gives : ∀ server path size offset s block,
    (answer (.request server (.read path size offset)) s).1 = .ok block →
      ∃ content, files server path = some content
        ∧ Chunk content size.toNat offset.toNat block

/-- The code with which a server has refused a request. -/
def Exchange.failure? : Exchange → Option Code
  | ⟨.request _ _, .error code⟩ => some code
  | _ => none

namespace Client

/-- A read of no more than is taken in one exchange is made in one. -/
theorem readSplit_self (path : String) (offset limit : UInt64) :
    readSplit path limit offset limit = Plan.question (Request.read path limit offset) := by
  have hoffset : ¬ offsetEnd ≤ offset.toNat + ([] : Bytes).length :=
    Nat.not_le.mpr offset.toNat_lt
  rw [readSplit, readOn]
  dsimp only
  rw [if_neg hoffset, List.length_nil, Nat.sub_zero, Nat.add_zero, Nat.min_self,
    UInt64.ofNat_toNat, UInt64.ofNat_toNat]
  refine congrArg (Plan.ask _) (funext fun answer => ?_)
  cases answer with
  | error code => rfl
  | ok chunk =>
      -- what comes is short of what was asked for or all of it
      have hlast : chunk.length < limit.toNat ∨ limit.toNat ≤ ([] ++ chunk).length ∨ chunk = [] :=
        (Nat.lt_or_ge chunk.length limit.toNat).imp_right .inl
      exact dif_pos hlast

end Client

namespace Union

variable {u : Union} {path p server : String} {flags : UInt32} {handle : FileHandle}
  {exchanges : List Exchange} {opened : Outcome FileHandle}

/-- A handle that comes of opening a path decides who is asked to read it. -/
theorem read_of_opened (h : (u.openFile path flags).Goes exchanges (.ok handle))
    (size offset : UInt64) : u.read path size offset (some handle) =
      ask handle.server (.read (Address.ofPath path).path size offset) := by
  obtain ⟨hmem, -⟩ := accepted_of_goes_openFile h
  by_cases htag : (Address.ofPath path).server = ""
  · have hholder : u.holder? (some handle) = some handle.server := by
      have hcontains : u.servers.contains handle.server = true := by simpa using hmem
      rw [holder?, Option.map_some, Option.filter_some, if_pos hcontains]
    rw [read, route_of_untagged htag]
    dsimp only
    rw [hholder]
  · have hserver := server_of_goes_openFile htag h
    rw [hserver] at hmem
    rw [read, route_of_mem htag hmem, hserver]

/-- All that opening a file asks of a server is to open it. -/
theorem request_of_goes_openFile (h : (u.openFile path flags).Goes exchanges opened) {x : Exchange}
    (hx : x ∈ exchanges) {r : Request} (hr : x.1 = .request server r) :
    r = .openFile (Address.ofPath path).path flags := by
  by_cases htag : (Address.ofPath path).server = ""
  · obtain ⟨replies, ⟨flags', -, rfl, -⟩, -⟩ := goes_openFile_of_untagged (route_of_untagged htag) h
    rcases List.mem_append.mp hx with hx | hx
    · obtain ⟨flag, -, rfl⟩ := List.mem_map.mp hx
      cases hr
    · obtain ⟨reply, -, rfl⟩ := List.mem_map.mp hx
      cases hr
      rfl
  · by_cases hmem : (Address.ofPath path).server ∈ u.servers
    · obtain ⟨answer, rfl, -⟩ := goes_openFile_of_tagged (route_of_mem htag hmem) h
      rw [List.mem_singleton.mp hx] at hr
      cases hr
      rfl
    · rw [(goes_openFile_of_unknown (route_of_not_mem htag hmem) h).1] at hx
      cases hx

/-- What printing a file from an offset on goes through on the server that has opened it. -/
inductive Prints (server p path : String) (limit : UInt64) :
    Nat → List Exchange → Cli.Report → Prop where
  | refused {offset : Nat} {code : Code} : Prints server p path limit offset
      [⟨.request server (.read p limit (UInt64.ofNat offset)), .error code⟩]
      (.ofTrouble (.refused path code))
  /-- A block that is empty is the last. -/
  | ended {offset : Nat} : Prints server p path limit offset
      [⟨.request server (.read p limit (UInt64.ofNat offset)), .ok []⟩] {}
  /-- No offset leads to what would come next. -/
  | overrun {offset : Nat} {block : Bytes} : block ≠ [] →
    Cli.offsetEnd ≤ offset + block.length → Prints server p path limit offset
      [⟨.request server (.read p limit (UInt64.ofNat offset)), .ok block⟩] { output := block }
  | block {offset : Nat} {block : Bytes} {rest : List Exchange} {report : Cli.Report} :
    block ≠ [] → Prints server p path limit (offset + block.length) rest report →
      Prints server p path limit offset
        (⟨.request server (.read p limit (UInt64.ofNat offset)), .ok block⟩ :: rest)
        (report.after block)

theorem goes_catFrom {limit : UInt64} {offset : Nat} {exchanges : List Exchange}
    {report : Cli.Report}
    (hread : ∀ offset, u.read path limit offset (some handle) = ask server (.read p limit offset))
    (h : (Cli.catFrom u path handle limit offset).Goes exchanges report) :
    Prints server p path limit offset exchanges report := by
  rw [Cli.catFrom, hread] at h
  obtain ⟨first, answer, rest, rfl, hfirst, hrest⟩ := Plan.goes_bind_iff.mp h
  obtain rfl := goes_ask_iff.mp hfirst
  cases answer with
  | error code =>
      obtain ⟨rfl, rfl⟩ := Plan.goes_pure_iff.mp hrest
      exact .refused
  | ok block =>
      dsimp only at hrest
      by_cases hblock : block = []
      · rw [dif_neg fun hgo => hgo.1 hblock] at hrest
        obtain ⟨rfl, rfl⟩ := Plan.goes_pure_iff.mp hrest
        rw [hblock]
        exact .ended
      · by_cases hoffset : offset + block.length < Cli.offsetEnd
        · rw [dif_pos ⟨hblock, hoffset⟩] at hrest
          obtain ⟨report', hreport, rfl⟩ := Plan.goes_map_iff.mp hrest
          have := List.length_pos_iff.mpr hblock
          exact .block hblock (goes_catFrom hread hreport)
        · rw [dif_neg fun hgo => hoffset hgo.2] at hrest
          obtain ⟨rfl, rfl⟩ := Plan.goes_pure_iff.mp hrest
          exact .overrun hblock (Nat.not_lt.mp hoffset)
termination_by Cli.offsetEnd - offset

variable {limit : UInt64} {offset : Nat} {report : Cli.Report}

/-- Printing a file is opening it and then printing it from its start, on the server that has
opened it. -/
theorem goes_cat (h : (Cli.cat u path limit).Goes exchanges report) :
    ∃ first opened reads, exchanges = first ++ reads
      ∧ (u.openFile path OpenFlags.readOnly).Goes first opened
      ∧ match opened with
        | .error code => reads = [] ∧ report = .ofTrouble (.refused path code)
        | .ok handle =>
          Prints handle.server (Address.ofPath path).path path limit 0 reads report := by
  rw [Cli.cat] at h
  obtain ⟨first, opened, reads, rfl, hopened, hreads⟩ := Plan.goes_bind_iff.mp h
  refine ⟨first, opened, reads, rfl, hopened, ?_⟩
  cases opened with
  | error code => exact Plan.goes_pure_iff.mp hreads
  | ok handle => exact goes_catFrom (fun offset => read_of_opened hopened limit offset) hreads

theorem Prints.read (h : Prints server p path limit offset exchanges report) :
    ∀ x ∈ exchanges, ∃ offset, x.1 = .request server (.read p limit offset) := by
  induction h with
  | refused | ended | overrun =>
      intro x hx
      rw [List.mem_singleton.mp hx]
      exact ⟨_, rfl⟩
  | block _ _ ih =>
      intro x hx
      rcases List.mem_cons.mp hx with rfl | hx
      · exact ⟨_, rfl⟩
      · exact ih x hx

/-- Printing fails with the read that fails, and only with one. -/
theorem Prints.trouble_eq (h : Prints server p path limit offset exchanges report) :
    report.trouble = (exchanges.findSome? Exchange.failure?).map (Cli.Trouble.refused path) := by
  induction h with
  | refused | ended | overrun => rfl
  | block _ _ ih => exact ih

/-- Nothing that printing a file asks of a server takes more than one exchange with it. -/
theorem split_of_goes_cat (h : (Cli.cat u path limit).Goes exchanges report) {x : Exchange}
    (hx : x ∈ exchanges) {r : Request} (hr : x.1 = .request server r) :
    Client.split limit r = .question r := by
  obtain ⟨first, opened, reads, rfl, hopened, hreads⟩ := goes_cat h
  rcases List.mem_append.mp hx with hx | hx
  · rw [request_of_goes_openFile hopened hx hr]
    rfl
  · cases opened with
    | error code =>
        rw [hreads.1] at hx
        cases hx
    | ok handle =>
        obtain ⟨offset, hread⟩ := hreads.read x hx
        rw [hr] at hread
        cases hread
        exact Client.readSplit_self _ offset limit

end Union

namespace Reading

variable {S : Type} {answer : (q : Inquiry) → S → q.Answer × S} {files : Files} {s s' : S}
  {exchanges : List Exchange} {server p path : String} {limit : UInt64} {offset : Nat}
  {report : Cli.Report} {block content : Bytes}

/-- What is known of a block that has been read. -/
theorem chunk (h : Reading answer files) (hoffset : offset ≤ content.length)
    (hcontent : (files server p).getD [] = content)
    (hblock : (answer (.request server (.read p limit (UInt64.ofNat offset))) s).1 = .ok block) :
    files server p = some content ∧ content.length < 2 ^ 64
      ∧ Chunk content limit.toNat offset block := by
  obtain ⟨content', hfile, hchunk⟩ := h.gives _ _ _ _ _ _ hblock
  rw [hfile, Option.getD_some] at hcontent
  subst hcontent
  have hlength := h.fits _ _ _ hfile
  rw [UInt64.toNat_ofNat_of_lt' (Nat.lt_of_le_of_lt hoffset hlength)] at hchunk
  exact ⟨hfile, hlength, hchunk⟩

/-- **What is printed from an offset on**: the start of what is left of the file, all of it unless
there is trouble, in no more reads than there are bytes left and one. -/
theorem printed (h : Reading answer files) (hlimit : 0 < limit)
    (hprints : Union.Prints server p path limit offset exchanges report)
    (hanswers : Plan.Answers answer exchanges s s') (hcontent : (files server p).getD [] = content)
    (hoffset : offset ≤ content.length) :
    report.output <+: content.drop offset
      ∧ (report.trouble = none →
        files server p = some content ∧ report.output = content.drop offset)
      ∧ exchanges.length ≤ content.length - offset + 1 := by
  induction hprints generalizing s with
  | refused => exact ⟨List.nil_prefix, fun hnone => (by cases hnone), by simp⟩
  | @ended offset =>
      obtain ⟨hblock, -⟩ := Plan.answers_singleton_iff.mp hanswers
      obtain ⟨hfile, -, hchunk⟩ := h.chunk hoffset hcontent hblock
      rw [List.drop_of_length_le (hchunk.length_le_of_nil (UInt64.lt_iff_toNat_lt.mp hlimit))]
      exact ⟨List.prefix_rfl, fun _ => ⟨hfile, rfl⟩, by simp⟩
  | @overrun offset block _ hover =>
      -- no file goes on where offsets end
      obtain ⟨hblock, -⟩ := Plan.answers_singleton_iff.mp hanswers
      obtain ⟨-, hlength, hchunk⟩ := h.chunk hoffset hcontent hblock
      have hle := hchunk.length_le
      have : Cli.offsetEnd = 2 ^ 64 := rfl
      omega
  | @block offset block rest report hne hrest ih =>
      obtain ⟨hblock, hanswers⟩ := Plan.answers_cons_iff.mp hanswers
      obtain ⟨-, -, hchunk⟩ := h.chunk hoffset hcontent hblock
      have hle := hchunk.length_le
      have hpos := List.length_pos_iff.mpr hne
      obtain ⟨hstart, hwhole, hcount⟩ := ih hanswers (by omega)
      rw [hchunk.drop_eq]
      refine ⟨(List.prefix_append_right_inj block).mpr hstart, fun hnone => ?_, ?_⟩
      · obtain ⟨hfile, houtput⟩ := hwhole hnone
        rw [← houtput]
        exact ⟨hfile, rfl⟩
      · rw [List.length_cons]
        omega

end Reading

/-- What printing a file comes to on servers whose files do not change. -/
structure Printing {S : Type} (u : Union) (answer : (q : Inquiry) → S → q.Answer × S)
    (files : Files) (s : S) (path : String) (limit : UInt64) : Prop where
  /-- What is printed without trouble is the whole file of the server that opened it, which has
  itself accepted to open it. -/
  whole : ((Cli.cat u path limit).outcome answer s).1.trouble = none →
    ∃ server ∈ u.servers,
      ((u.openFile path OpenFlags.readOnly).outcome answer s).1 = .ok ⟨server⟩
      ∧ ⟨.request server (.openFile (Address.ofPath path).path OpenFlags.readOnly), .ok ()⟩ ∈
        (Cli.cat u path limit).transcript answer s
      ∧ files server (Address.ofPath path).path =
        some ((Cli.cat u path limit).outcome answer s).1.output
  /-- Where no server opens the file printing fails, and prints nothing. -/
  refused : ∀ code, ((u.openFile path OpenFlags.readOnly).outcome answer s).1 = .error code →
    ((Cli.cat u path limit).outcome answer s).1 = .ofTrouble (.refused path code)
  /-- Once a server has opened it, it alone is asked, for at most one block more than the file has
  bytes; whatever it answers, what is printed is the start of its file; and printing fails with the
  read that fails, and only with one. -/
  opened : ∀ server, ((u.openFile path OpenFlags.readOnly).outcome answer s).1 = .ok ⟨server⟩ →
    ∃ reads, (Cli.cat u path limit).transcript answer s =
        (u.openFile path OpenFlags.readOnly).transcript answer s ++ reads
      ∧ (∀ x ∈ reads, ∃ offset,
        x.1 = .request server (.read (Address.ofPath path).path limit offset))
      ∧ reads.length ≤ ((files server (Address.ofPath path).path).getD []).length + 1
      ∧ ((Cli.cat u path limit).outcome answer s).1.output <+:
        (files server (Address.ofPath path).path).getD []
      ∧ ((Cli.cat u path limit).outcome answer s).1.trouble =
        (reads.findSome? Exchange.failure?).map (Cli.Trouble.refused path)
  /-- Every request is one exchange on a connection that takes as much at once. -/
  single : ∀ x ∈ (Cli.cat u path limit).transcript answer s, ∀ server r,
    x.1 = .request server r → Client.split limit r = .question r

namespace Reading

variable {S : Type} {answer : (q : Inquiry) → S → q.Answer × S} {files : Files}

/-- **What is printed is one server's file, as a whole or with a failure.** -/
theorem printing (h : Reading answer files) (u : Union) (s : S) (path : String) {limit : UInt64}
    (hlimit : 0 < limit) : Printing u answer files s path limit := by
  have hgoes := Plan.goes_transcript answer (Cli.cat u path limit) s
  have hanswers := Plan.answers_transcript answer (Cli.cat u path limit) s
  have hsingle : ∀ x ∈ (Cli.cat u path limit).transcript answer s, ∀ server r,
      x.1 = .request server r → Client.split limit r = .question r :=
    fun _ hx _ _ hr => Union.split_of_goes_cat hgoes hx hr
  obtain ⟨first, opened, reads, hall, hopened, hreads⟩ := Union.goes_cat hgoes
  rw [hall] at hanswers
  obtain ⟨between, hfirst, hlast⟩ := Plan.answers_append_iff.mp hanswers
  have houtcome := Plan.outcome_of_goes hopened hfirst
  have htranscript := Plan.transcript_of_goes hopened hfirst
  cases opened with
  | error code =>
      obtain ⟨rfl, hreport⟩ := hreads
      refine ⟨fun hnone => ?_, fun code' hcode => ?_, fun server hserver => ?_, hsingle⟩
      · rw [hreport] at hnone
        cases hnone
      · rw [houtcome] at hcode
        cases hcode
        exact hreport
      · rw [houtcome] at hserver
        cases hserver
  | ok handle =>
      obtain ⟨hmem, haccepted⟩ := Union.accepted_of_goes_openFile hopened
      obtain ⟨hstart, hwhole, hcount⟩ := h.printed hlimit hreads hlast rfl (Nat.zero_le _)
      refine ⟨fun hnone => ?_, fun code hcode => ?_, fun server hserver => ?_, hsingle⟩
      · obtain ⟨hfile, houtput⟩ := hwhole hnone
        refine ⟨handle.server, hmem, ?_, ?_, ?_⟩
        · rw [houtcome]
        · rw [hall]
          exact List.mem_append_left reads haccepted
        · rw [hfile, houtput, List.drop_zero]
      · rw [houtcome] at hcode
        cases hcode
      · rw [houtcome] at hserver
        cases hserver
        exact ⟨reads, by rw [hall, htranscript], hreads.read, hcount, hstart, hreads.trouble_eq⟩

/-! Two servers with different files of one name, of which the first does not open its own, and the
second gives one byte and two bytes in turn. -/

def sampleFiles : Files := fun server path =>
  if path = "/f" then (if server = "alpha" then some [1, 2] else some [4, 5, 6, 7, 8]) else none

def sampleAnswer : (q : Inquiry) → Nat → q.Answer × Nat
  | .connected _, turn => (true, turn)
  | .stop _, turn => (true, turn)
  | .request server (.openFile _ _), turn =>
    (if server = "alpha" then .error .notFound else .ok (), turn)
  | .request server (.read path size offset), turn =>
    match sampleFiles server path with
    | some content =>
      (.ok ((content.drop offset.toNat).take (min size.toNat (turn % 2 + 1))), turn + 1)
    | none => (.error .notFound, turn)
  | .request _ _, turn => (.error .notSupported, turn)

theorem reading_sample : Reading sampleAnswer sampleFiles where
  fits server path content hfile := by
    have hcontent : content = [1, 2] ∨ content = [4, 5, 6, 7, 8] := by
      rw [sampleFiles] at hfile
      split at hfile
      · split at hfile
        · exact .inl (Option.some.inj hfile).symm
        · exact .inr (Option.some.inj hfile).symm
      · cases hfile
    rcases hcontent with rfl | rfl <;> decide
  gives server path size offset turn block hblock := by
    rw [sampleAnswer] at hblock
    cases hfile : sampleFiles server path with
    | none =>
        rw [hfile] at hblock
        cases hblock
    | some content =>
        rw [hfile] at hblock
        cases hblock
        refine ⟨content, rfl, List.take_prefix _ _, fun hsize hoffset => ?_⟩
        rw [Ne, List.take_eq_nil_iff, List.drop_eq_nil_iff]
        omega

theorem printing_sample :
    Reading sampleAnswer sampleFiles ∧ (0 : UInt64) < 2
      ∧ (let report := ((Cli.cat Peers.sampleUnion "/f" 2).outcome sampleAnswer 0).1
        report.trouble = none ∧ report.output = [4, 5, 6, 7, 8])
      ∧ Printing Peers.sampleUnion sampleAnswer sampleFiles 0 "/f" 2 :=
  ⟨reading_sample, by decide, by decide +kernel,
    printing reading_sample Peers.sampleUnion 0 "/f" (by decide)⟩

end Reading
end UnionFS
