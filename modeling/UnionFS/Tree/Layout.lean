import UnionFS.Tree.Resolve

/-!
# Laying out a tree

A tree is laid out object by object.  The way to an object leads through the links that are there
already.  Directories on the way that are missing are made, and belong to the superuser.
-/

namespace UnionFS

/-- An object to be put at a path below some directory. -/
structure Placement where
  path : List Name
  node : Node

/-- The object when it is new: nobody has followed a link. -/
def Placement.fresh (p : Placement) : Node :=
  match p.node.content with
  | .link _ => { p.node with atime := 0 }
  | _ => p.node

namespace Tree

/-- A new directory, at the time `time`. -/
def newDirectory (time : Int64) : Node :=
  { content := .directory, permissions := 0o755, atime := time, mtime := time }

/-- A tree with only its root. -/
def empty (privileged : Bool) (time : Int64) : Tree :=
  { nodes := [([], newDirectory time)], privileged }

/-- Where names lead from `base` on: through what there is, and below what is missing. -/
def goal (t : Tree) (base : Path) : List Name → Path
  | [] => base
  | name :: rest =>
    match t.resolve linkLimit base [name] with
    | .ok q => t.goal q rest
    | .error _ => t.goal (base ++ [name]) rest

/-- Make the directory at a path and those on the way to it, where they are missing. -/
def makeDirectories (t : Tree) (time : Int64) (base : Path) : List Name → Tree
  | [] => if (t.lookup base).isSome then t else t.put base (newDirectory time)
  | name :: rest =>
    let t := if (t.lookup base).isSome then t else t.put base (newDirectory time)
    t.makeDirectories time (t.goal base [name]) rest

/-- Put an object below `base`.  Only a privileged process gives an object to another owner. -/
def place (t : Tree) (time : Int64) (base : Path) (p : Placement) : Except IoError Tree :=
  if !t.privileged && (p.node.owner != 0 || p.node.group != 0) then
    .error Code.notPermitted.toIoError
  else
    let t := t.makeDirectories time base p.path.dropLast
    .ok (t.put (t.goal base p.path.dropLast ++ p.path.getLast?.toList) p.fresh)

/-- Put objects one after another. -/
def placeAll (t : Tree) (time : Int64) (base : Path) (ps : List Placement) : Except IoError Tree :=
  ps.foldlM (fun t p => t.place time base p) t

end Tree
end UnionFS
