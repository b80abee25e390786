import UnionFS.Proofs.Export.Alignment
import UnionFS.Proofs.Wire.Canonical

/-!
# Two readers of one field

A text behind its length is read by two readers.  The client's, `readText`, compares the length with
its limit itself; the server's for paths, `readPath`, leaves that to the reader of blocks.  What
there can be at the front of an input is a field that is whole, one that is cut off, or one that
declares more than the limit (`exists_field`), and in each case both runs are known.

The readers take the same bytes in every case, and they agree on all but one: of a path that
declares too much the server says that a block was too large, where the other reader says that a
name was too long (`alike_readPath`, `not_always_alike`).
-/

namespace UnionFS

open Dialogue Wire

/-! ## Readers in a row, to the end of the input -/

section
variable {σ α β : Type} {s : σ}

/-- A reader that has its bytes leaves the rest to what follows. -/
theorem Dialogue.Reads.runOn_bind {d : Dialogue σ α} {b : Bytes} {a : α} (h : Reads d b a)
    (k : α → Dialogue σ β) (more : Bytes) (s : σ) :
    (d >>= k).runOn (b ++ more) s = (k a).runOn more s := by
  rw [Dialogue.runOn, Dialogue.runOn, h.feed_bind]

theorem runOn_size_of_short {input : Bytes} (h : input.length < 8) (k : UInt64 → Dialogue σ β) :
    (readSize >>= k).runOn input s = ⟨.error .closed, [], [], s⟩ :=
  runOn_receive_of_lt h _ s

theorem runOn_block_of_short {length limit : UInt64} {part : Bytes} (hle : length ≤ limit)
    (h : part.length < length.toNat) (k : Bytes → Dialogue σ β) :
    (readBlock length limit >>= k).runOn part s = ⟨.error .closed, [], [], s⟩ := by
  rw [readBlock, if_neg (UInt64.not_lt.mpr hle)]
  exact runOn_receive_of_lt h _ s

theorem runOn_block_of_long {length limit : UInt64} (h : limit < length)
    (k : Bytes → Dialogue σ β) (rest : Bytes) :
    (readBlock length limit >>= k).runOn rest s =
      ⟨.error (.lengthExceeded .payload length limit), [], rest, s⟩ := by
  rw [readBlock, if_pos h]
  rfl

end

namespace Wire

/-- What can be at the front of an input where a field of at most `limit` bytes is due. -/
inductive Field (limit : UInt64) : Bytes → Prop where
  | whole {block : Bytes} (rest : Bytes) :
    block.length ≤ limit.toNat → Field limit (ofBlock block ++ rest)
  /-- Not even the length is there. -/
  | noLength {input : Bytes} : input.length < 8 → Field limit input
  | cut {length : UInt64} {part : Bytes} :
    length ≤ limit → part.length < length.toNat → Field limit (ofSize length ++ part)
  | long {length : UInt64} (rest : Bytes) : limit < length → Field limit (ofSize length ++ rest)

/-- The input begins with a length above the limit. -/
def DeclaresMore (limit : UInt64) (input : Bytes) : Prop :=
  ∃ length rest, input = ofSize length ++ rest ∧ limit < length

variable {limit length : UInt64} {input block rest : Bytes}

theorem ofBlock_of_length (h : block.length = length.toNat) :
    ofBlock block = ofSize length ++ block := by
  rw [ofBlock, h, UInt64.ofNat_toNat]

theorem length_ofSize (size : UInt64) : (ofSize size).length = 8 := Bytes.length_ofNat ..

theorem ofSize_append_inj {length' : UInt64} {rest' : Bytes}
    (h : ofSize length ++ rest = ofSize length' ++ rest') : length = length' ∧ rest = rest' := by
  obtain ⟨-, hlength, hrest⟩ := (reads_size length).unique (reads_size length') h ()
  exact ⟨hlength, hrest⟩

/-- **There is always one of these at the front of an input.** -/
theorem exists_field (limit : UInt64) (input : Bytes) : Field limit input := by
  rcases Nat.lt_or_ge input.length 8 with hshort | hlong
  · exact .noLength hshort
  obtain ⟨length, hlength⟩ := exists_ofSize (b := input.take 8) (List.length_take_of_le hlong)
  rw [← List.take_append_drop 8 input, hlength]
  -- only a length within the limit lets the bytes behind it matter
  rcases UInt64.lt_or_le limit length with hmore | hle
  · exact .long _ hmore
  rcases Nat.lt_or_ge (input.drop 8).length length.toNat with hcut | hthere
  · exact .cut hle hcut
  · have hblock := List.length_take_of_le hthere
    rw [← List.take_append_drop length.toNat (input.drop 8), ← List.append_assoc,
      ← ofBlock_of_length hblock]
    refine .whole _ ?_
    rw [hblock]
    exact UInt64.le_iff_toNat_le.mp hle

theorem not_declaresMore_whole (h : block.length ≤ limit.toNat) (rest : Bytes) :
    ¬ DeclaresMore limit (ofBlock block ++ rest) := by
  rintro ⟨length, rest', heq, hmore⟩
  rw [ofBlock, List.append_assoc] at heq
  obtain ⟨rfl, -⟩ := ofSize_append_inj heq
  exact not_lt_ofNat h hmore

theorem not_declaresMore_noLength (h : input.length < 8) : ¬ DeclaresMore limit input := by
  rintro ⟨length, rest, rfl, -⟩
  rw [List.length_append, length_ofSize] at h
  omega

theorem not_declaresMore_cut (h : length ≤ limit) (part : Bytes) :
    ¬ DeclaresMore limit (ofSize length ++ part) := by
  rintro ⟨length', rest, heq, hmore⟩
  obtain ⟨rfl, -⟩ := ofSize_append_inj heq
  exact absurd hmore (UInt64.not_lt.mpr h)

/-! ## The reader of texts -/

section
variable {σ : Type} {s : σ}

/-- The text of some bytes, or the error at which its reader fails. -/
def textOf (block : Bytes) : Except WireError String :=
  match Utf8.decode block with
  | some text => .ok text
  | none => .error .notUtf8

theorem runOn_readText_whole (h : block.length ≤ limit.toNat) (rest : Bytes) :
    (readText limit).runOn (ofBlock block ++ rest) s = ⟨textOf block, [], rest, s⟩ := by
  rw [readText, ofBlock, List.append_assoc, (reads_size _).runOn_bind,
    if_neg (not_lt_ofNat h), (reads_block h).runOn_bind, ofUtf8, textOf]
  cases Utf8.decode block with
  | some text => rfl
  | none => rfl

theorem runOn_readText_noLength (h : input.length < 8) :
    (readText limit).runOn input s = ⟨.error .closed, [], [], s⟩ :=
  runOn_size_of_short h _

theorem runOn_readText_cut {part : Bytes} (hle : length ≤ limit) (h : part.length < length.toNat) :
    (readText limit).runOn (ofSize length ++ part) s = ⟨.error .closed, [], [], s⟩ := by
  rw [readText, (reads_size length).runOn_bind, if_neg (UInt64.not_lt.mpr hle),
    runOn_block_of_short hle h]

theorem runOn_readText_long (h : limit < length) (rest : Bytes) :
    (readText limit).runOn (ofSize length ++ rest) s =
      ⟨.error (.lengthExceeded .name length limit), [], rest, s⟩ := by
  rw [runOn, feed_readText_of_lt h]
  rfl

end

end Wire

namespace Export

variable {e : Export} {t : Tree} {input block rest : Bytes} {length : UInt64}

/-! ## The reader of paths -/

theorem runOn_readPath_whole (h : block.length ≤ e.maxPath.toNat) (rest : Bytes) :
    e.readPath.runOn (ofBlock block ++ rest) t = ⟨.ok (pathOf block), [], rest, t⟩ :=
  (reads_path_iff.mpr ⟨block, h, rfl, rfl⟩).runOn rest t

theorem runOn_readPath_noLength (h : input.length < 8) :
    e.readPath.runOn input t = ⟨.error .closed, [], [], t⟩ :=
  runOn_size_of_short h _

theorem runOn_readPath_cut {part : Bytes} (hle : length ≤ e.maxPath)
    (h : part.length < length.toNat) :
    e.readPath.runOn (ofSize length ++ part) t = ⟨.error .closed, [], [], t⟩ := by
  rw [readPath, (reads_size length).runOn_bind, runOn_block_of_short hle h]

theorem runOn_readPath_long (h : e.maxPath < length) (rest : Bytes) :
    e.readPath.runOn (ofSize length ++ rest) t =
      ⟨.error (.lengthExceeded .payload length e.maxPath), [], rest, t⟩ := by
  rw [readPath, (reads_size length).runOn_bind, runOn_block_of_long h]

/-! ## Both together -/

/-- Two readers have come to the same: to one text, to one error, or to bytes that are no text,
which the first leaves to its reply.  Neither has said or changed anything, and both have left the
same bytes. -/
inductive Agree (t : Tree) : Transcript Tree (Outcome String) → Transcript Tree String → Prop where
  | text (text : String) (rest : Bytes) :
    Agree t ⟨.ok (.ok text), [], rest, t⟩ ⟨.ok text, [], rest, t⟩
  | failed {error : WireError} (rest : Bytes) :
    error ≠ .notUtf8 → Agree t ⟨.error error, [], rest, t⟩ ⟨.error error, [], rest, t⟩
  | notText (rest : Bytes) :
    Agree t ⟨.ok (.error .illegalSequence), [], rest, t⟩ ⟨.error .notUtf8, [], rest, t⟩

theorem agree_whole (t : Tree) (block rest : Bytes) :
    Agree t ⟨.ok (pathOf block), [], rest, t⟩ ⟨textOf block, [], rest, t⟩ := by
  rw [pathOf, textOf]
  cases Utf8.decode block with
  | some text => exact .text text rest
  | none => exact .notText rest

/-- Errors of different kinds are not the same error. -/
theorem not_agree_long (t : Tree) (length limit : UInt64) (rest : Bytes) :
    ¬ Agree t ⟨.error (.lengthExceeded .payload length limit), [], rest, t⟩
      ⟨.error (.lengthExceeded .name length limit), [], rest, t⟩ :=
  nofun

/-- **The readers agree unless the input declares too long a field.** -/
theorem agree_iff (e : Export) (t : Tree) (input : Bytes) :
    Agree t (e.readPath.runOn input t) ((readText e.maxPath).runOn input t) ↔
      ¬ DeclaresMore e.maxPath input := by
  cases exists_field e.maxPath input with
  | whole rest h =>
      rw [runOn_readPath_whole h, runOn_readText_whole h]
      exact iff_of_true (agree_whole t _ rest) (not_declaresMore_whole h rest)
  | noLength h =>
      rw [runOn_readPath_noLength h, runOn_readText_noLength h]
      exact iff_of_true (.failed [] nofun) (not_declaresMore_noLength h)
  | @cut _ part hle h =>
      rw [runOn_readPath_cut hle h, runOn_readText_cut hle h]
      exact iff_of_true (.failed [] nofun) (not_declaresMore_cut hle part)
  | @long length rest h =>
      rw [runOn_readPath_long h, runOn_readText_long h]
      exact iff_of_false (not_agree_long t _ _ rest) fun hnot => hnot ⟨length, rest, rfl, h⟩

/-- What the reader of paths of an export makes of any input, next to the reader of texts with the
same limit. -/
structure ReadsAlike (e : Export) (t : Tree) : Prop where
  /-- They come to the same, exactly if no length above the limit is declared. -/
  agree : ∀ input, Agree t (e.readPath.runOn input t) ((readText e.maxPath).runOn input t) ↔
    ¬ DeclaresMore e.maxPath input
  /-- In any case they take the same bytes. -/
  unread : ∀ input,
    (e.readPath.runOn input t).unread = ((readText e.maxPath).runOn input t).unread
  /-- A field within the limit is taken whole, and nothing behind it. -/
  whole : ∀ block rest, block.length ≤ e.maxPath.toNat →
    e.readPath.runOn (ofBlock block ++ rest) t = ⟨.ok (pathOf block), [], rest, t⟩
      ∧ (readText e.maxPath).runOn (ofBlock block ++ rest) t = ⟨textOf block, [], rest, t⟩
  /-- At a field that is cut off, in its length or behind it, both find the stream closed. -/
  cut : ∀ input, (input.length < 8 ∨ ∃ length part, input = ofSize length ++ part
      ∧ length ≤ e.maxPath ∧ part.length < length.toNat) →
    e.readPath.runOn input t = ⟨.error .closed, [], [], t⟩
      ∧ (readText e.maxPath).runOn input t = ⟨.error .closed, [], [], t⟩
  /-- A length above the limit is all that is taken.  The one says that a block is too large, the
  other that a name is too long. -/
  long : ∀ length rest, e.maxPath < length →
    e.readPath.runOn (ofSize length ++ rest) t =
        ⟨.error (.lengthExceeded .payload length e.maxPath), [], rest, t⟩
      ∧ (readText e.maxPath).runOn (ofSize length ++ rest) t =
        ⟨.error (.lengthExceeded .name length e.maxPath), [], rest, t⟩
      ∧ (WireError.lengthExceeded .payload length e.maxPath).code = .tooLarge
      ∧ (WireError.lengthExceeded .name length e.maxPath).code = .nameTooLong

/-- **Paths are read as texts are, but for the error at too long a one.** -/
theorem alike_readPath (e : Export) (t : Tree) : e.ReadsAlike t where
  agree := agree_iff e t
  unread := by
    intro input
    cases exists_field e.maxPath input with
    | whole rest h => rw [runOn_readPath_whole h, runOn_readText_whole h]
    | noLength h => rw [runOn_readPath_noLength h, runOn_readText_noLength h]
    | cut hle h => rw [runOn_readPath_cut hle h, runOn_readText_cut hle h]
    | long rest h => rw [runOn_readPath_long h, runOn_readText_long h]
  whole := fun _ rest h => ⟨runOn_readPath_whole h rest, runOn_readText_whole h rest⟩
  cut := by
    rintro input (hshort | ⟨length, part, rfl, hle, hcut⟩)
    · exact ⟨runOn_readPath_noLength hshort, runOn_readText_noLength hshort⟩
    · exact ⟨runOn_readPath_cut hle hcut, runOn_readText_cut hle hcut⟩
  long := fun _ rest h => ⟨runOn_readPath_long h rest, runOn_readText_long h rest, rfl, rfl⟩

/-- **The readers do not always agree**: a path of five bytes, where four are the limit. -/
theorem not_always_alike :
    ¬ ∀ (e : Export) (t : Tree) (input : Bytes),
      Agree t (e.readPath.runOn input t) ((readText e.maxPath).runOn input t) := by
  intro hall
  have hlong : (4 : UInt64) < 5 := by decide
  have hagree := hall ⟨[], ⟨"user", 0, 0⟩, 4, 8⟩ { nodes := [] }
    (ofSize 5 ++ Utf8.encode "/abcd")
  exact (agree_iff _ _ _).mp hagree ⟨5, _, rfl, hlong⟩

end Export
end UnionFS
