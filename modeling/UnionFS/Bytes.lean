/-!
# Byte strings

File contents, names of files and everything that crosses a connection are byte strings.  A number
of fixed width travels with its most significant byte first.  A file is read by slicing and written
by overlaying.

* `toNat_ofNat`: a number below `256 ^ width` is read back from its `width` bytes;
* `ofNat_toNat`: and every byte string is the form of the number it stands for;
* `length_overlay`, `slice_overlay`: an overlay is as long as it must be and holds what was laid;
* `slice_append_slice`, `overlay_overlay`: reading and writing in pieces comes to the same as at
  once.
-/

-- Powers of numbers are written with this instance everywhere, also where another is imported.
attribute [instance (high), default_instance high + 1] instPowNat

namespace UnionFS

abbrev Bytes := List UInt8

namespace Bytes

/-- The last `width` base-256 digits of `n`, most significant first. -/
def ofNat : Nat → Nat → Bytes
  | 0, _ => []
  | width + 1, n => ofNat width (n / 256) ++ [UInt8.ofNat n]

/-- The number whose base-256 digits are `b`, most significant first. -/
def toNat (b : Bytes) : Nat :=
  b.foldl (fun n digit => n * 256 + digit.toNat) 0

@[simp] theorem length_ofNat (width n : Nat) : (ofNat width n).length = width := by
  induction width generalizing n with
  | zero => rfl
  | succ width ih => simp [ofNat, ih]

theorem toNat_append_singleton (b : Bytes) (digit : UInt8) :
    toNat (b ++ [digit]) = toNat b * 256 + digit.toNat := by
  simp [toNat, List.foldl_append]

theorem toNat_ofNat {width n : Nat} (h : n < 256 ^ width) : toNat (ofNat width n) = n := by
  induction width generalizing n with
  | zero => simp at h; subst h; rfl
  | succ width ih =>
    have hq : n / 256 < 256 ^ width := by
      rw [Nat.div_lt_iff_lt_mul (by decide), ← Nat.pow_succ]; exact h
    have hd : (UInt8.ofNat n).toNat = n % 256 := UInt8.toNat_ofNat'
    rw [ofNat, toNat_append_singleton, ih hq, hd]
    omega

/-- Byte strings are built up from the left. -/
theorem snocInduction {motive : Bytes → Prop} (nil : motive [])
    (snoc : ∀ b digit, motive b → motive (b ++ [digit])) (b : Bytes) : motive b := by
  have h : ∀ r : Bytes, motive r.reverse := fun r => by
    induction r with
    | nil => exact nil
    | cons digit r ih => rw [List.reverse_cons]; exact snoc _ _ ih
  simpa using h b.reverse

theorem toNat_lt (b : Bytes) : toNat b < 256 ^ b.length := by
  induction b using snocInduction with
  | nil => decide
  | snoc b digit ih =>
    have hd : digit.toNat < 256 := digit.toNat_lt
    rw [toNat_append_singleton, List.length_append, List.length_singleton, Nat.pow_succ]
    omega

theorem ofNat_toNat (b : Bytes) : ofNat b.length (toNat b) = b := by
  induction b using snocInduction with
  | nil => rfl
  | snoc b digit ih =>
    have hd : digit.toNat < 256 := digit.toNat_lt
    have hq : (toNat b * 256 + digit.toNat) / 256 = toNat b := by omega
    have hr : UInt8.ofNat (toNat b * 256 + digit.toNat) = digit := by
      apply UInt8.toNat_inj.mp
      have : (UInt8.ofNat (toNat b * 256 + digit.toNat)).toNat
          = (toNat b * 256 + digit.toNat) % 256 := UInt8.toNat_ofNat'
      omega
    rw [toNat_append_singleton, List.length_append, List.length_singleton, ofNat, hq, ih, hr]

/-- At most `size` bytes of `b` from `offset` on; fewer where `b` ends, none past its end. -/
def slice (b : Bytes) (offset size : Nat) : Bytes :=
  (b.drop offset).take size

/-- `b` with `data` laid over it at `offset`.  A gap before `offset` is filled with zeros, and
laying nothing changes nothing. -/
def overlay (b : Bytes) (offset : Nat) (data : Bytes) : Bytes :=
  if data.isEmpty then b
  else
    b.take offset ++ List.replicate (offset - b.length) 0 ++ data
      ++ b.drop (offset + data.length)

theorem length_slice (b : Bytes) (offset size : Nat) :
    (slice b offset size).length = min size (b.length - offset) := by
  rw [slice, List.length_take, List.length_drop]

theorem slice_length (b : Bytes) (offset size : Nat) :
    slice b offset (slice b offset size).length = slice b offset size := by
  rw [slice, slice, List.length_take, List.take_eq_take_iff]
  omega

/-- A slice in two parts. -/
theorem slice_append_slice (b : Bytes) (offset size more : Nat) :
    slice b offset size ++ slice b (offset + size) more = slice b offset (size + more) := by
  rw [slice, slice, slice, ← List.drop_drop, ← List.take_add]

/-- Where fewer bytes are there than were asked for, asking for more gives no more. -/
theorem slice_eq_of_short {b : Bytes} {offset size more : Nat} (h : size ≤ more)
    (hshort : (slice b offset size).length < size) : slice b offset size = slice b offset more := by
  rw [length_slice] at hshort
  have hend : (b.drop offset).length ≤ size := by
    rw [List.length_drop]
    omega
  rw [slice, slice, List.take_of_length_le hend, List.take_of_length_le (Nat.le_trans hend h)]

@[simp] theorem overlay_nil (b : Bytes) (offset : Nat) : overlay b offset [] = b := rfl

/-- What is laid over the start comes before what was there from its end on. -/
theorem overlay_zero (b data : Bytes) : overlay b 0 data = data ++ b.drop data.length := by
  cases data with
  | nil => rfl
  | cons x rest =>
    rw [overlay, if_neg (by simp), List.take_zero, Nat.zero_sub, Nat.zero_add]
    rfl

theorem length_overlay (b : Bytes) (offset : Nat) {data : Bytes} (h : data ≠ []) :
    (overlay b offset data).length = max b.length (offset + data.length) := by
  have : data.isEmpty = false := by simpa using h
  simp [overlay, this]
  omega

/-- What an overlay puts before the data, the gap included, ends where the data start. -/
theorem length_front (b : Bytes) (offset : Nat) :
    (b.take offset ++ List.replicate (offset - b.length) (0 : UInt8)).length = offset := by
  rw [List.length_append, List.length_take, List.length_replicate]
  omega

/-- What was laid is read back from where it was laid. -/
theorem slice_overlay (b : Bytes) (offset : Nat) (data : Bytes) (h : data ≠ []) :
    slice (overlay b offset data) offset data.length = data := by
  have he : data.isEmpty = false := by simpa using h
  have hl := length_front b offset
  rw [overlay, he]
  simp only [Bool.false_eq_true, if_false, slice]
  rw [List.append_assoc (b.take offset ++ _), List.drop_append_of_le_length (by omega)]
  rw [List.drop_of_length_le (by omega), List.nil_append, List.take_append_of_le_length (by omega)]
  exact List.take_length

/-- Laying one thing and then another right behind it is laying both. -/
theorem overlay_overlay (b : Bytes) (offset : Nat) (data more : Bytes) :
    overlay (overlay b offset data) (offset + data.length) more =
      overlay b offset (data ++ more) := by
  by_cases hdata : data = []
  · subst hdata
    rfl
  by_cases hmore : more = []
  · subst hmore
    rw [overlay_nil, List.append_nil]
  have hfirst : overlay b offset data =
      (b.take offset ++ List.replicate (offset - b.length) 0 ++ data)
        ++ b.drop (offset + data.length) := by
    rw [overlay, if_neg (by simpa using hdata)]
  have hfront : (b.take offset ++ List.replicate (offset - b.length) (0 : UInt8) ++ data).length =
      offset + data.length := by
    rw [List.length_append, length_front]
  -- the second layer starts where the first ends, so that there is no gap before it
  have hgap : offset + data.length - (overlay b offset data).length = 0 := by
    rw [length_overlay b offset hdata]
    omega
  rw [overlay, if_neg (by simpa using hmore), hgap, hfirst, ← hfront, List.take_left,
    List.drop_append, List.drop_of_length_le (Nat.le_add_right _ _), Nat.add_sub_cancel_left,
    hfront, List.drop_drop]
  rw [overlay, if_neg (by simpa using fun h => absurd h hdata)]
  simp only [List.replicate_zero, List.append_nil, List.nil_append, List.append_assoc,
    List.length_append, Nat.add_assoc]

end Bytes
end UnionFS
