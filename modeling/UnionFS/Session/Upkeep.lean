import UnionFS.Session.Company
import UnionFS.Tree.Dates

/-!
# Sessions on a machine that keeps dates

While clients do what they do, the machine dates the objects of the tree by its own clock, for what
the sessions do and for what else goes on.  An upkeep is all that it marks, before each turn of a
schedule or each move of a company.  As a turn can be cut anywhere, with no time between its parts,
marks may come between any two bytes.
-/

namespace UnionFS

/-- What the machine marks before each turn. -/
abbrev Upkeep := Nat → Marks

namespace Upkeep

/-- All dates stay as they are. -/
def idle : Upkeep := fun _ _ => none

/-- What comes after the first turn. -/
def next (u : Upkeep) : Upkeep := fun n => u (n + 1)

end Upkeep

namespace Course

def mark (c : Course) (m : Marks) : Course :=
  { c with tree := c.tree.mark m }

/-- Where a schedule leads while the machine keeps dates. -/
def followUnder (c : Course) (u : Upkeep) : Schedule → Course
  | [] => c
  | turn :: rest =>
    (((c.mark (u 0)).meet turn.deed).wait turn.pause).followUnder u.next rest

end Course

namespace Company

variable {ι : Type}

def mark (c : Company ι) (m : Marks) : Company ι :=
  { c with tree := c.tree.mark m }

theorem course_mark (c : Company ι) (m : Marks) (i : ι) :
    (c.mark m).course i = (c.course i).mark m := rfl

variable [DecidableEq ι]

/-- Where moves lead while the machine keeps dates. -/
def followUnder (c : Company ι) (u : Upkeep) : List (Move ι) → Company ι
  | [] => c
  | m :: rest => (((c.mark (u 0)).meet m.client m.deed).wait m.pause).followUnder u.next rest

end Company
end UnionFS
