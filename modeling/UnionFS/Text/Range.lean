/-!
# Ranges of characters

A class of characters as a list of ranges of numbers, each with its first and its last.
-/

namespace UnionFS.Text

def isInRanges (ranges : List (Nat × Nat)) (c : Char) : Bool :=
  ranges.any fun (first, last) => first ≤ c.toNat && c.toNat ≤ last

end UnionFS.Text
