/-!
# Scanners

A scanner takes something off the front of a text, or finds that it is not there.  Of two scanners
with `<|>` between them the second is tried where the first fails, from the same place.

* `length_many`: a repetition gives nothing back, so that it ends.
-/

namespace UnionFS

/-- What takes an `α` off the front of a text. -/
abbrev Scan := StateT (List Char) Option

namespace Scan

variable {α β : Type}

/-- The next character, which is left where it is. -/
def peek : Scan (Option Char) := do
  return (← get).head?

/-- One character of a class. -/
def only (isIn : Char → Bool) : Scan Char := fun
  | c :: rest => if isIn c then some (c, rest) else none
  | [] => none

def char (c : Char) : Scan Unit := do
  let _ ← only (· == c)

/-- Exactly these characters. -/
def exactly : List Char → Scan Unit
  | [] => return ()
  | c :: rest => do char c; exactly rest

def word (text : String) : Scan Unit :=
  exactly text.toList

/-- All characters of a class up to the first of another. -/
def span (isIn : Char → Bool) : Scan (List Char) := fun s =>
  some (s.takeWhile isIn, s.dropWhile isIn)

/-- At least one character of a class. -/
def span1 (isIn : Char → Bool) : Scan (List Char) := do
  return (← only isIn) :: (← span isIn)

/-- Nothing, where a character of the class comes next. -/
def before (isIn : Char → Bool) : Scan Unit := do
  guard ((← peek).any isIn)

/-- Nothing, at the end of the text. -/
def finish : Scan Unit := do
  guard (← get).isEmpty

/-- Repeat a scanner as long as it takes something. -/
def repeatOn (p : Scan α) (s : List Char) : List α × List Char :=
  match p s with
  | none => ([], s)
  | some (a, rest) =>
    if _h : rest.length < s.length then
      let (more, last) := repeatOn p rest
      (a :: more, last)
    else ([], s)
termination_by s.length

/-- As many as there are, perhaps none. -/
def many (p : Scan α) : Scan (List α) := fun s => some (repeatOn p s)

/-- As many as there are with separators between them, perhaps none.  A separator after the last one
is not taken. -/
def manyBetween (separator : Scan β) (p : Scan α) : Scan (List α) := do
  match ← optional p with
  | none => return []
  | some first => return first :: (← many do let _ ← separator; p)

/-- The result of a scanner that takes the whole text. -/
def whole (p : Scan α) (text : String) : Option α :=
  ((do let a ← p; finish; return a : Scan α).run text.toList).map (·.1)

theorem length_repeatOn (p : Scan α) (s : List Char) : (repeatOn p s).2.length ≤ s.length := by
  fun_induction repeatOn p s with
  | case1 => exact Nat.le_refl _
  | case2 s a rest _ h more last hr ih =>
    have := Nat.le_of_lt h
    exact Nat.le_trans (by simpa [hr] using ih) this
  | case3 => exact Nat.le_refl _

theorem length_many {p : Scan α} {s rest : List Char} {found : List α}
    (h : many p s = some (found, rest)) : rest.length ≤ s.length := by
  have : repeatOn p s = (found, rest) := Option.some.inj h
  simpa [this] using length_repeatOn p s

end Scan
end UnionFS
