import UnionFS.Tree.Basic

/-!
# Dates

The machine dates the objects of a tree: it notes when each was last read, written to and changed, a
link also when a path leads through it.  Which of this it notes, and what its clock shows, is its own
affair.  Programs see the dates and set none, so that they are marked in a tree from outside.
-/

namespace UnionFS

/-- When an object was read, written to and changed. -/
structure Dates where
  atime : Int64 := 0
  mtime : Int64 := 0
  ctime : Int64 := 0
  deriving DecidableEq, Repr

/-- New dates for some of the objects. -/
abbrev Marks := Path → Option Dates

def Stat.undated (s : Stat) : Stat :=
  { s with atime := 0, mtime := 0, ctime := 0 }

def Entry.undated (x : Entry) : Entry :=
  { x with stat := x.stat.undated }

namespace Node

def dated (n : Node) (dates : Dates) : Node :=
  { n with atime := dates.atime, mtime := dates.mtime, ctime := dates.ctime }

def undated (n : Node) : Node := n.dated {}

end Node

namespace Tree

/-- The machine gives the marked objects their new dates. -/
def mark (t : Tree) (m : Marks) : Tree :=
  { t with nodes := t.nodes.map fun x => (x.1, (m x.1).elim x.2 x.2.dated) }

/-- The tree with all dates blank. -/
def undated (t : Tree) : Tree := t.mark fun _ => some {}

end Tree
end UnionFS
