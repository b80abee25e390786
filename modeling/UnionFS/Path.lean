import UnionFS.Os.Errno
import UnionFS.Text.Pieces
import UnionFS.Text.Utf8

/-!
# Paths

A path as text is cut at its slashes.  Empty pieces and pieces `.` name nothing, except that a `.`
at the start of a relative path is a component of its own.

* `relative`: the path below a root that a text names, refused if it could leave the root by `..`;
* `isWithin`: one path starts with another, component by component.
-/

namespace UnionFS

/-- A file name: bytes other than zero and slash. -/
abbrev Name := Bytes

/-- An absolute path without links, `.` and `..`: the names from the root on. -/
abbrev Path := List Name

namespace Path

inductive Component where
  | root
  | current
  | parent
  | name (text : List Char)
  deriving DecidableEq, Repr

def dot : List Char := ['.']
def dotDot : List Char := ['.', '.']

def slashPieces (path : List Char) : List (List Char) :=
  Text.pieces (· == '/') path

/-- The component that a piece is, if it is one. -/
def Component.ofPiece? (piece : List Char) : Option Component :=
  if piece.isEmpty || piece == dot then none
  else if piece == dotDot then some .parent
  else some (.name piece)

/-- The components of a path. -/
def components (path : List Char) : List Component :=
  match slashPieces path with
  | [] => []
  | first :: rest =>
    let start :=
      if first.isEmpty then (if rest.isEmpty then [] else [Component.root])
      else if first == dot then [.current]
      else (Component.ofPiece? first).toList
    start ++ rest.filterMap Component.ofPiece?

/-- No component of the path leads upwards. -/
def isSafe (path : List Char) : Bool :=
  !(components path).contains .parent

/-- The names below a root that a path stands for, whether or not it starts with a slash. -/
def relative (path : List Char) : Outcome (List (List Char)) :=
  let parts := components path
  if parts.contains .parent then .error .accessDenied
  else .ok (parts.filterMap fun
    | .name text => some text
    | _ => none)

/-- The components of `root` are the first components of `path`. -/
def isWithin (path root : List Char) : Bool :=
  (components root).isPrefixOf (components path)

/-- Names with slashes between them. -/
def joinText (names : List (List Char)) : List Char :=
  List.intercalate ['/'] names

/-- The last component of a path, where that is a name. -/
def fileName? (path : List Char) : Option (List Char) :=
  match (components path).getLast? with
  | some (.name text) => some text
  | _ => none

/-- `name` below the path `base`, as text: `name` alone if it is absolute itself. -/
def join (base name : String) : String :=
  if name.startsWith "/" then name
  else if base.isEmpty || base.endsWith "/" then base ++ name
  else base ++ "/" ++ name

/-- `name` below the path `base`, as bytes. -/
def below (base : Bytes) (name : Name) : Bytes :=
  if base.getLast? == some 47 then base ++ name else base ++ 47 :: name

/-- An absolute path as bytes. -/
def toBytes (path : Path) : Bytes :=
  match path with
  | [] => [47]
  | _ => path.flatMap fun name => 47 :: name

end Path

namespace Name

/-- What follows the last full stop of a name, unless nothing stands before it. -/
def extension? [BEq α] (stop : α) (name : List α) : Option (List α) :=
  let after := (name.reverse.takeWhile (· != stop)).reverse
  let before := name.length - after.length
  if before ≤ 1 || name == [stop, stop] then none else some after

end Name
end UnionFS
