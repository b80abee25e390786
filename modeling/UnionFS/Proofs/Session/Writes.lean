import UnionFS.Proofs.Session.Requests
import UnionFS.Proofs.Session.Settled

/-!
# A write as a session hears it

A write arrives in two parts, its opening and its data, and any number of bytes of either may be
missing.

* With less than its opening, nothing is done (`arrive_part`).
* An opening is answered by whether the file can be opened (`arrive_refused`, `arrive_opened`).
* With less than all data, nothing is done to the tree (`arrive_dataPart`); with all of them the
  write is carried out (`arrive_data`).
-/

namespace UnionFS

open Dialogue Wire Client

namespace Export

/-- The arguments of a write. -/
def readWriteArguments (e : Export) : Dialogue Tree (Outcome String × UInt64 × UInt64) := do
  let path ← e.readPath
  let size ← readSize
  let offset ← readSize
  return (path, size, offset)

/-- What follows them. -/
def answerWrite (e : Export) : Outcome String × UInt64 × UInt64 → Dialogue Tree Unit
  | (path, size, offset) => do
    match ← .inspect fun t => path.bind (e.openForWrite t · size) with
    | .error c => .say (ofCode c)
    | .ok q =>
      .say (ofCode 0)
      e.takeData q size offset

theorem serve_write (e : Export) : e.serve .write = e.readWriteArguments >>= e.answerWrite := by
  simp only [serve, readWriteArguments, LawfulMonad.bind_assoc, LawfulMonad.pure_bind]
  rfl

theorem reads_writeArguments {e : Export} {path : String} (size offset : UInt64)
    (h : (Utf8.encode path).length ≤ e.maxPath.toNat) :
    Reads e.readWriteArguments (ofText path ++ (ofSize size ++ ofSize offset))
      (.ok path, size, offset) := by
  refine (reads_path h).bind ((reads_size size).bind ?_)
  exact (reads_size offset).map fun offset => (Except.ok path, size, offset)

/-- Too long a path is not even read. -/
theorem untouched_longPath {α : Type} {e : Export} {path : String} {more part : Bytes}
    (k : Outcome String → Dialogue Tree α) (t : Tree)
    (hlen : (Utf8.encode path).length < 2 ^ 64)
    (hlong : e.maxPath.toNat < (Utf8.encode path).length)
    (hpart : part <+: ofText path ++ more) : ((e.readPath >>= k).feed part t).Untouched t := by
  have hgt : e.maxPath < UInt64.ofNat (Utf8.encode path).length :=
    (lt_ofNat_iff hlen).mpr hlong
  obtain ⟨next, hread⟩ : ∃ next : Bytes → Dialogue Tree α, e.readPath >>= k =
      readSize >>= fun length => readBlock length e.maxPath >>= next :=
    ⟨_, by simp only [readPath, LawfulMonad.bind_assoc]; rfl⟩
  rw [hread]
  rw [ofText, List.append_assoc] at hpart
  have hsize := reads_size (σ := Tree) (UInt64.ofNat (Utf8.encode path).length)
  by_cases hshort : part.length < (ofSize (UInt64.ofNat (Utf8.encode path).length)).length
  · -- not even the length is there
    have hp := List.prefix_of_prefix_length_le hpart (List.prefix_append _ _) (Nat.le_of_lt hshort)
    exact hsize.untouched _ t hp hshort
  · obtain ⟨later, rfl⟩ := List.prefix_of_prefix_length_le (List.prefix_append _ _) hpart
      (Nat.not_lt.mp hshort)
    rw [hsize.feed_bind _ later t, readBlock, if_pos hgt]
    refine ⟨?_, rfl, rfl⟩
    intro a hdone
    cases hdone

variable {e : Export} {path : String} {data : Bytes} {offset : UInt64} {t : Tree}

/-- The arguments of a write lead to nothing before they are all there, nor with too long a path. -/
theorem untouched_part {part : Bytes} (hlen : (Utf8.encode path).length < 2 ^ 64)
    (hpart : part <+: ofText path ++ (Request.write path data offset).arguments)
    (h : part.length < (ofText path ++ (Request.write path data offset).arguments).length
      ∨ e.maxPath.toNat < (Utf8.encode path).length) :
    ((e.serve .write).feed part t).Untouched t := by
  by_cases hlong : e.maxPath.toNat < (Utf8.encode path).length
  · exact untouched_longPath _ t hlen hlong hpart
  · have hread := reads_writeArguments (e := e) (UInt64.ofNat data.length) offset
      (Nat.not_lt.mp hlong)
    rw [serve_write]
    exact hread.untouched e.answerWrite t hpart (h.resolve_right hlong)

/-- Its arguments all there, a write is answered by whether its file can be opened. -/
theorem feed_serve_write (data : Bytes) (offset : UInt64) (t : Tree)
    (hp : (Utf8.encode path).length ≤ e.maxPath.toNat) :
    (e.serve .write).feed (ofText path ++ (Request.write path data offset).arguments) t =
      Dialogue.feed
        (match e.openForWrite t path (UInt64.ofNat data.length) with
        | .error c => .say (ofCode c)
        | .ok q => do .say (ofCode 0); e.takeData q (UInt64.ofNat data.length) offset)
        [] t := by
  have h := feed_attend_write data offset [] t hp
  rw [feed_attend, List.append_nil] at h
  exact h

/-- The data of a write are waited for until they are all there. -/
theorem feed_takeData_part (q : Path) (part : Bytes) (offset : UInt64) (t : Tree)
    (hmax : data.length ≤ e.maxIo.toNat) (hpart : part.length < data.length) :
    (e.takeData q (UInt64.ofNat data.length) offset).feed part t =
      ⟨e.takeData q (UInt64.ofNat data.length) offset, [], part, t⟩ := by
  rw [takeData, readBlock_of_le hmax]
  show Dialogue.feed (.receive data.length _) part t = _
  rw [Dialogue.feed, if_neg (Nat.not_le.mpr hpart)]
  rfl

theorem outcome_takeData {q : Path} (hmax : data.length ≤ e.maxIo.toNat) :
    (e.takeData q (UInt64.ofNat data.length) offset).outcome? = none := by
  rw [takeData, readBlock_of_le hmax]
  rfl

/-- A write is taken as a whole, or not at all. -/
theorem writeAt_eq_or (q : Path) (offset : UInt64) (data : Bytes) (t : Tree) :
    (writeAt q offset data t).1 = .ok (UInt64.ofNat data.length)
      ∨ (∃ code, (writeAt q offset data t).1 = .error code) ∧ (writeAt q offset data t).2 = t := by
  rw [writeAt]
  split
  · exact .inr ⟨⟨_, rfl⟩, rfl⟩
  · exact .inl rfl

/-- A write of nothing leaves the tree as it is. -/
theorem writeAt_nil (q : Path) (offset : UInt64) (t : Tree) : (writeAt q offset [] t).2 = t := by
  rw [writeAt]
  split
  · rfl
  · simp only [Node.overlay_nil, Tree.modify_id]

end Export

namespace Session

variable {e : Export} {path : String} {data : Bytes} {offset : UInt64} {t : Tree} {s : Session}

/-- What a session at rest does with the start of a write. -/
theorem Resting.arrive_write (h : s.Resting e) (now : Nat) (t : Tree) (rest : Bytes) :
    s.arrive now t (ofCommand .write ++ rest) = s.proceed e now ((e.serve .write).feed rest t) :=
  h.arrive_command now t (.write "" [] 0) rest

theorem opening_write (path : String) (data : Bytes) (offset : UInt64) :
    opening (.write path data offset) =
      ofCommand .write ++ (ofText path ++ (Request.write path data offset).arguments) :=
  Request.opening_eq _

/-- **A part of an opening, or one with too long a path, does nothing.** -/
theorem arrive_part {part : Bytes} (h : s.Resting e) (now : Nat)
    (hlen : (Utf8.encode path).length < 2 ^ 64)
    (hpart : part <+: opening (.write path data offset))
    (hshort : part.length < (opening (.write path data offset)).length
      ∨ e.maxPath.toNat < (Utf8.encode path).length) :
    (s.arrive now t part).tree = t ∧ (s.arrive now t part).sent = [] := by
  rw [opening_write] at hpart hshort
  by_cases hc : part.length < (ofCommand .write).length
  · -- not even the command is there
    match part with
    | [] => exact ⟨rfl, rfl⟩
    | [a] =>
      rw [h.arrive now t (by simp), serveAll]
      exact ⟨rfl, rfl⟩
    | a :: b :: rest => exact absurd hc (by simp [ofCommand, Bytes.length_ofNat])
  · -- the command is there, and a part of what has to follow it
    obtain ⟨rest, rfl⟩ := List.prefix_of_prefix_length_le (List.prefix_append _ _) hpart
      (Nat.not_lt.mp hc)
    rw [List.prefix_append_right_inj] at hpart
    rw [List.length_append, List.length_append, Nat.add_lt_add_iff_left] at hshort
    obtain ⟨hunfinished, hsent, hstate⟩ := Export.untouched_part (t := t) hlen hpart hshort
    rw [h.arrive_write, proceed, takeUp]
    dsimp only
    split
    · next hdone => exact absurd hdone (hunfinished ())
    · exact ⟨hstate, hsent⟩
    · exact ⟨hstate, hsent⟩

/-- **A write whose file cannot be opened is refused at once.** -/
theorem arrive_refused {c : Code} (h : s.Resting e) (now : Nat) (offset : UInt64)
    (hp : (Utf8.encode path).length ≤ e.maxPath.toNat)
    (ho : e.openForWrite t path (UInt64.ofNat data.length) = .error c) :
    ∃ s', s'.Resting e
      ∧ s.arrive now t (opening (.write path data offset)) = ⟨s', t, ofCode c⟩ := by
  obtain ⟨s', hs', hrest⟩ := resting_serveAll_nil h.listening e now t
  refine ⟨s', hs', ?_⟩
  rw [opening_write, h.arrive_write,
    Export.feed_serve_write data offset t hp, ho, feed_say, proceed, takeUp]
  dsimp only [Dialogue.outcome?]
  rw [hrest, Reaction.after, List.append_nil]

/-- The session has opened a write's file and said so, and waits for the data. -/
structure Taking (s : Session) (e : Export) (data : Bytes) (offset : UInt64) (q : Path) :
    Prop where
  phase : s.phase = .busy e (e.takeData q (UInt64.ofNat data.length) offset)
  unread : s.unread = []
  listening : s.ended = false

variable {q : Path}

/-- **A write whose file can be opened is told so, and its data are waited for.** -/
theorem arrive_opened (h : s.Resting e) (now : Nat) (offset : UInt64)
    (hp : (Utf8.encode path).length ≤ e.maxPath.toNat) (hd : data ≠ [])
    (hmax : data.length ≤ e.maxIo.toNat)
    (ho : e.openForWrite t path (UInt64.ofNat data.length) = .ok q) :
    ∃ s', s'.Taking e data offset q
      ∧ s.arrive now t (opening (.write path data offset)) = ⟨s', t, ofCode 0⟩ := by
  have hwait := Export.feed_takeData_part q [] offset t hmax (List.length_pos_iff.mpr hd)
  have hfeed : Dialogue.feed
      (do .say (ofCode 0); e.takeData q (UInt64.ofNat data.length) offset) [] t =
      ⟨e.takeData q (UInt64.ofNat data.length) offset, ofCode 0, [], t⟩ := by
    rw [feed_say_bind, hwait]
    dsimp only
    rw [List.append_nil]
  rw [opening_write, h.arrive_write,
    Export.feed_serve_write data offset t hp, ho]
  dsimp only
  rw [hfeed, proceed, takeUp, Export.outcome_takeData hmax]
  dsimp only
  rw [await_listening h.listening]
  refine ⟨_, ?_, rfl⟩
  exact ⟨rfl, rfl, h.listening⟩

/-- The end of an opening whose write has no data is the end of the request. -/
theorem arrive_opened_nil (h : s.Resting e) (now : Nat) (offset : UInt64)
    (hp : (Utf8.encode path).length ≤ e.maxPath.toNat)
    (ho : e.openForWrite t path (UInt64.ofNat 0) = .ok q) :
    ∃ s', s'.Resting e
      ∧ s.arrive now t (opening (.write path [] offset)) =
        ⟨s', t, ofCode 0 ++ Export.replySize (Export.writeAt q offset [] t).1⟩ := by
  obtain ⟨s', hs', hrest⟩ := resting_serveAll_nil h.listening e now t
  have hdata : (e.takeData q (UInt64.ofNat 0) offset).feed [] t =
      ⟨.done (), Export.replySize (Export.writeAt q offset [] t).1, [],
        (Export.writeAt q offset [] t).2⟩ :=
    Export.feed_takeData t (show ([] : Bytes).length ≤ _ from Nat.zero_le _)
  rw [Export.writeAt_nil] at hdata
  refine ⟨s', hs', ?_⟩
  rw [opening_write, h.arrive_write,
    Export.feed_serve_write [] offset t hp, List.length_nil, ho]
  dsimp only
  rw [feed_say_bind, hdata, proceed, takeUp]
  dsimp only [Dialogue.outcome?]
  rw [hrest, Reaction.after, List.append_nil]

/-- **A part of the data changes nothing.** -/
theorem arrive_dataPart {part : Bytes} (h : s.Taking e data offset q) (now : Nat) (t : Tree)
    (hmax : data.length ≤ e.maxIo.toNat) (hpart : part.length < data.length) :
    (s.arrive now t part).tree = t := by
  rw [arrive]
  split
  · rfl
  · rw [resume, h.phase, h.unread]
    dsimp only
    rw [List.nil_append, Export.feed_takeData_part q part offset t hmax hpart,
      Export.outcome_takeData hmax]
    dsimp only
    split <;> rfl

/-- **With all data there, the write is carried out and answered**, and the session rests again. -/
theorem arrive_data (h : s.Taking e data offset q) (now : Nat) (t : Tree) (hd : data ≠ [])
    (hmax : data.length ≤ e.maxIo.toNat) :
    ∃ s', s'.Resting e
      ∧ s.arrive now t data = ⟨s', (Export.writeAt q offset data t).2,
        Export.replySize (Export.writeAt q offset data t).1⟩ := by
  obtain ⟨s', hs', hrest⟩ :=
    resting_serveAll_nil h.listening e now (Export.writeAt q offset data t).2
  refine ⟨s', hs', ?_⟩
  rw [arrive, if_neg (by simpa using hd), resume, h.phase, h.unread]
  dsimp only
  rw [List.nil_append, Export.feed_takeData t hmax]
  dsimp only [Dialogue.outcome?]
  rw [hrest, Reaction.after, List.append_nil]

end Session
end UnionFS
