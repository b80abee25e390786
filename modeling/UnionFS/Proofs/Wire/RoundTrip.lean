import Mathlib.Algebra.GroupWithZero.Nat
import Mathlib.Data.List.Forall2
import UnionFS.Proofs.Session.Admission
import UnionFS.Wire.Datum

/-!
# Round trips

Fields of any kinds, written one after another, are read back as they were.  A field fits a kind
(`Fits`) if the reader of that kind is meant for it: a text no longer than the limit, a key without
a zero that a token has room for.  The reader of the kind then takes exactly what was written
(`Fits.reads`), so that a row of readers takes a row of fields and leaves what comes behind it,
with each field where the writers' counts put it (`read_written`).
-/

namespace UnionFS

namespace Utf8

theorem encode_eq_flatMap (text : String) :
    encode text = text.toList.flatMap String.utf8EncodeChar := by
  rw [encode, ← String.utf8Encode_toList, List.utf8Encode, List.data_toByteArray,
    List.toList_toArray]

/-- Only the form of the character zero holds a zero. -/
theorem eq_of_zero_mem {c : Char} (h : 0 ∈ String.utf8EncodeChar c) : c = '\x00' := by
  have hval : c.val.toNat < 2 ^ 32 := c.val.toNat_lt
  have hne : ∀ n, 0 < n → n < 256 → (0 : UInt8) ≠ UInt8.ofNat n := by
    intro n hpos hlt hzero
    have hmod := congrArg UInt8.toNat hzero
    rw [UInt8.toNat_ofNat_of_lt' hlt] at hmod
    exact absurd hmod (Nat.ne_of_lt hpos)
  rw [String.utf8EncodeChar] at h
  split at h
  · next hle =>
    rcases Nat.eq_zero_or_pos c.val.toNat with hzero | hpos
    · exact Char.ext (UInt32.toNat_inj.mp hzero)
    · exact absurd (List.mem_singleton.mp h) (hne _ hpos (by omega))
  · -- in longer forms every byte has its highest bit set
    exfalso
    split at h
    · simp only [List.mem_cons, List.not_mem_nil, or_false] at h
      rcases h with h | h
      all_goals exact hne _ (by omega) (by omega) h
    · split at h
      · simp only [List.mem_cons, List.not_mem_nil, or_false] at h
        rcases h with h | h | h
        all_goals exact hne _ (by omega) (by omega) h
      · simp only [List.mem_cons, List.not_mem_nil, or_false] at h
        rcases h with h | h | h | h
        all_goals exact hne _ (by omega) (by omega) h

theorem zero_not_mem_encode {text : String} (h : '\x00' ∉ text.toList) : 0 ∉ encode text := by
  intro hzero
  rw [encode_eq_flatMap] at hzero
  obtain ⟨c, hc, hmem⟩ := List.mem_flatMap.mp hzero
  obtain rfl := eq_of_zero_mem hmem
  exact h hc

end Utf8

/-- A reader that has its bytes has its value, and the bytes behind them are left. -/
theorem Dialogue.Reads.runOn {σ α : Type} {d : Dialogue σ α} {b : Bytes} {a : α}
    (h : Reads d b a) (more : Bytes) (s : σ) : d.runOn (b ++ more) s = ⟨.ok a, [], more, s⟩ := by
  have hfeed := h.feed_bind .done more s
  rw [show d >>= Dialogue.done = d.bind .done from rfl, bind_done] at hfeed
  rw [Dialogue.runOn, hfeed]
  rfl

namespace Wire

open Dialogue

variable {σ : Type} {data : List Datum} {kinds : List Kind} {d : Datum} {kind : Kind}

/-! ## One field -/

namespace Datum

/-- The reader of this kind is meant for the field. -/
inductive Fits : Datum → Kind → Prop where
  | command (c : Command) : Fits (.command c) .command
  | code (c : Code) : Fits (.code c) .code
  | size (n : UInt64) : Fits (.size n) .size
  | mask (m : UInt32) : Fits (.mask m) .mask
  | text {t : String} {limit : UInt64} :
    (Utf8.encode t).length ≤ limit.toNat → Fits (.text t) (.text limit)
  | stat (s : Stat) : Fits (.stat s) .stat
  | key {k : String} :
    (Utf8.encode k).length ≤ tokenWidth → '\x00' ∉ k.toList → Fits (.key k) .key
  | block {b : Bytes} {length limit : UInt64} :
    b.length = length.toNat → length ≤ limit → Fits (.block b) (.block length limit)

/-- What a writer says that it has written, it has. -/
theorem length_bytes (d : Datum) : d.bytes.length = d.count := by
  cases d with
  | text t => rw [bytes, ofText, List.length_append, ofSize, Bytes.length_ofNat, count]
  | stat s =>
      simp only [bytes, ofStat, ofSize, ofMask, ofCode, List.length_append, Bytes.length_ofNat,
        count]
  | key k => exact length_ofKey k
  | block b => rfl
  | command | code | size | mask => exact Bytes.length_ofNat ..

end Datum

theorem reads_key {key : String} (hlen : (Utf8.encode key).length ≤ tokenWidth)
    (hzero : '\x00' ∉ key.toList) : Reads (σ := σ) readKey (ofKey key) key := by
  have htext : Utf8.decode (keyBytes (ofKey key)) = some key := by
    rw [keyBytes_ofKey]
    exact tokenText_of_fits hlen (Utf8.zero_not_mem_encode hzero)
  have hutf : Reads (σ := σ) (ofUtf8 (keyBytes (ofKey key))) [] key := by
    rw [ofUtf8, htext]
    exact .done key
  exact ((Reads.take_of_length (length_ofKey key)).bind hutf).of_eq (List.append_nil _)

/-- **The reader of a field takes what its writer wrote.** -/
theorem Datum.Fits.reads (h : d.Fits kind) : Reads (σ := σ) kind.read d.bytes d := by
  cases h with
  | command c => exact (reads_command c).map _
  | code c => exact (reads_code c).map _
  | size n => exact (reads_size n).map _
  | mask m => exact (reads_mask m).map _
  | text hlen => exact (reads_text hlen).map _
  | stat s => exact (reads_stat s).map _
  | key hlen hzero => exact (reads_key hlen hzero).map _
  | block hlen hle =>
      refine Reads.map _ ?_
      rw [readBlock, if_neg (UInt64.not_lt.mpr hle)]
      exact .take_of_length hlen

/-! ## Fields in a row -/

/-- What has been written for all the fields. -/
def Datum.written (data : List Datum) : Bytes :=
  data.flatMap Datum.bytes

/-- Where each of the fields ends, if the first begins here and every writer's count is right. -/
def Datum.readings : Nat → List Datum → List Kind.Reading
  | _, [] => []
  | position, d :: rest => ⟨d, position + d.count⟩ :: readings (position + d.count) rest

theorem length_written (data : List Datum) :
    (Datum.written data).length = (data.map Datum.count).sum := by
  rw [Datum.written, List.length_flatMap]
  exact congrArg List.sum (List.map_congr_left fun d _ => d.length_bytes)

theorem reads_written (h : List.Forall₂ Datum.Fits data kinds) :
    Reads (σ := σ) (kinds.mapM Kind.read) (Datum.written data) data := by
  induction h with
  | nil => exact .done []
  | @cons d kind rest kinds hd _ ih =>
      rw [List.mapM_cons]
      exact hd.reads.bind (ih.map (d :: ·))

theorem readEach_written (h : List.Forall₂ Datum.Fits data kinds) (trailing : Bytes)
    (position : Nat) :
    Kind.readEach.go kinds (Datum.written data ++ trailing) position =
      (Datum.readings position data).map .ok := by
  induction h generalizing position with
  | nil => rfl
  | @cons d kind rest kinds hd _ ih =>
      have hcount : (d.bytes ++ (Datum.written rest ++ trailing)).length
          - (Datum.written rest ++ trailing).length = d.count := by
        rw [List.length_append, Nat.add_sub_cancel, d.length_bytes]
      rw [Datum.written, List.flatMap_cons, ← Datum.written, List.append_assoc, Kind.readEach.go,
        hd.reads.runOn]
      dsimp only
      rw [hcount, ih]
      rfl

/-- **What is written field by field is read back field by field**, whatever comes behind it: the
same values, each from the bytes that its writer counted, and what comes behind is left. -/
theorem read_written (h : List.Forall₂ Datum.Fits data kinds) (trailing : Bytes) (s : σ) :
    (kinds.mapM Kind.read).runOn (Datum.written data ++ trailing) s = ⟨.ok data, [], trailing, s⟩
      ∧ Kind.readEach kinds (Datum.written data ++ trailing) = (Datum.readings 0 data).map .ok
      ∧ (data.map Datum.count).sum = (Datum.written data).length :=
  ⟨(reads_written h).runOn trailing s, readEach_written h trailing 0,
    (length_written data).symm⟩

/-- Fields with the least and the greatest of their values. -/
def sampleFields : List Datum :=
  [.command .userNotFound, .code Int64.minValue, .size 0xffffffffffffffff, .mask 0, .text "",
    .text "ab", .stat { mode := 0o100644, atime := -1 }, .key "secret"]

def sampleKinds : List Kind :=
  [.command, .code, .size, .mask, .text 0, .text 2, .stat, .key]

theorem fits_sampleFields : List.Forall₂ Datum.Fits sampleFields sampleKinds :=
  .cons (.command _) <| .cons (.code _) <| .cons (.size _) <| .cons (.mask _) <|
    .cons (.text (by decide)) <| .cons (.text (by decide)) <| .cons (.stat _) <|
    .cons (.key (by decide) (by decide)) .nil

theorem read_written_sample :
    List.Forall₂ Datum.Fits sampleFields sampleKinds
      ∧ (sampleKinds.mapM Kind.read).runOn (Datum.written sampleFields ++ [255]) () =
        ⟨.ok sampleFields, [], [255], ()⟩
      ∧ Kind.readEach sampleKinds (Datum.written sampleFields ++ [255]) =
        (Datum.readings 0 sampleFields).map .ok
      ∧ (sampleFields.map Datum.count).sum = (Datum.written sampleFields).length :=
  ⟨fits_sampleFields, read_written fits_sampleFields [255] ()⟩

end Wire
end UnionFS
