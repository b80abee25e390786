/-!
# Numerals

Numbers as they are read from a text and written to one.
-/

namespace UnionFS.Text

/-- The value of a digit in a base up to 36, in either case. -/
def digitValue? (base : Nat) (c : Char) : Option Nat :=
  let value? :=
    if '0' ≤ c ∧ c ≤ '9' then some (c.toNat - 48)
    else if 'a' ≤ c ∧ c ≤ 'z' then some (c.toNat - 87)
    else if 'A' ≤ c ∧ c ≤ 'Z' then some (c.toNat - 55)
    else none
  value?.filter (· < base)

/-- The number that a row of digits in some base stands for. -/
def digits? (base : Nat) (text : List Char) : Option Nat :=
  match text with
  | [] => none
  | _ => text.foldlM (fun n c => (digitValue? base c).map (n * base + ·)) 0

/-- A decimal number of 16 bits, which may have a plus sign. -/
def word16? (text : List Char) : Option UInt16 :=
  let digits := match text with
    | '+' :: rest => rest
    | _ => text
  ((digits? 10 digits).filter (· < 2 ^ 16)).map UInt16.ofNat

/-- A number in base 8. -/
def octal (n : Nat) : String :=
  String.ofList (Nat.toDigits 8 n)

/-- A text with blanks before it, `width` characters long where it is not longer itself. -/
def padLeft (width : Nat) (text : String) : String :=
  String.ofList (List.replicate (width - text.length) ' ') ++ text

end UnionFS.Text
