import UnionFS.Tree.Basic

/-!
# Resolution of paths

A path is followed name by name from the root on.  A link is replaced by its target, and only so
many links are followed.  What is reached is the one path of the object without links, `.` and `..`.
-/

namespace UnionFS

namespace Name

/-- The greatest length of a name. -/
def limit : Nat := 255

def slash : UInt8 := 47
def dot : Name := [46]
def dotDot : Name := [46, 46]

end Name

namespace Tree

/-- How many links a path may lead through. -/
def linkLimit : Nat := 40

/-- Whether the process may follow a name from a directory on. -/
def searchable (t : Tree) (directory : Path) : Bool :=
  (t.lookup directory).all fun n => t.grants n Access.execute

/-- The child of a directory. -/
def child (t : Tree) (directory : Path) (name : Name) : Outcome Node :=
  if Name.limit < name.length then .error .nameTooLong
  else match t.lookup (directory ++ [name]) with
    | some n => .ok n
    | none => .error .notFound

/-- Follow the names `todo` from the directory `here` on, through at most `links` links.  A file can
only be the end of a path. -/
def resolve (t : Tree) (links : Nat) (here : Path) : List Name → Outcome Path
  | [] => .ok here
  | name :: todo =>
    if name.isEmpty then t.resolve links here todo
    else if !t.searchable here then .error .accessDenied
    else if name == Name.dot then t.resolve links here todo
    else if name == Name.dotDot then t.resolve links here.dropLast todo
    else match t.child here name with
      | .error e => .error e
      | .ok n =>
        match n.content with
        | .directory => t.resolve links (here ++ [name]) todo
        | .file _ => if todo.isEmpty then .ok (here ++ [name]) else .error .notDirectory
        | .link target =>
          match links with
          | 0 => .error .tooManyLinks
          | links + 1 =>
            t.resolve links (if target.head? == some Name.slash then [] else here)
              (Text.pieces (· == Name.slash) target ++ todo)
termination_by todo => (links, todo.length)

/-- The object's own path for the names below the directory `root`.  The directory has to be one
that may be searched, even where no names follow. -/
def realpath (t : Tree) (root : Path) (names : List Name) : Outcome Path :=
  if names.any (·.contains 0) then .error .invalidArgument
  else t.resolve linkLimit [] (root ++ Name.dot :: names)

/-- The object's own path for a path as bytes, which starts at the root.  What ends in a slash is a
directory that may be searched. -/
def find (t : Tree) (path : Bytes) : Outcome Path :=
  let names := Text.pieces (· == Name.slash) path
  if path.isEmpty then .error .notFound
  else t.realpath [] (names.map fun name => if name.isEmpty then Name.dot else name)

/-- A path by which an object is used has fewer bytes than this. -/
def pathLimit : Nat := 4096

/-- The object that a path leads to. -/
def locate (t : Tree) (path : Bytes) : Except IoError (Path × Node) :=
  if path.contains 0 then .error .zeroInName
  else if pathLimit ≤ path.length then .error Code.nameTooLong.toIoError
  else if path.isEmpty then .error Code.notFound.toIoError
  else match t.resolve linkLimit [] (Text.pieces (· == Name.slash) path) with
    | .error code => .error code.toIoError
    | .ok p =>
      match t.lookup p with
      | some n => .ok (p, n)
      | none => .error Code.notFound.toIoError

/-- The content of the file at a path. -/
def contentAt (t : Tree) (path : Bytes) : Except IoError Bytes := do
  let (_, n) ← t.locate path
  if !t.grants n Access.read then .error Code.accessDenied.toIoError
  else if n.isDirectory then .error Code.isDirectory.toIoError
  else return n.data

/-- The content of the file at a path as text. -/
def contentOf (t : Tree) (path : String) : Except IoError Bytes :=
  t.contentAt (Utf8.encode path)

/-- The content of the file at a path, as text. -/
def textOf (t : Tree) (path : String) : Except IoError String := do
  match Utf8.decode (← t.contentOf path) with
  | some text => return text
  | none => .error .notText

/-- The children of the directory at a path. -/
def readDirectory (t : Tree) (path : Bytes) : Except IoError (List (Name × Node)) := do
  let (p, n) ← t.locate path
  if !n.isDirectory then .error Code.notDirectory.toIoError
  else if !t.grants n Access.read then .error Code.accessDenied.toIoError
  else return t.children p

/-- The children of the directory at a path, each with its content if that can be read.  The way to
a child leads through the directory's path, with all the links on it. -/
def files (t : Tree) (path : String) : Except IoError (List (Name × Option Bytes)) := do
  let path := Utf8.encode path
  return (← t.readDirectory path).map fun (name, _) =>
    (name, (t.contentAt (Path.below path name)).toOption)

end Tree
end UnionFS
