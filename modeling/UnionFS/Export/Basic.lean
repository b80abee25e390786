import UnionFS.Request
import UnionFS.Tree.Resolve

/-!
# Exports

An export is a directory of the server's file tree that one session may use, in the name of one
account.  A path is confined to the export: it may not lead upwards, and after links are resolved it
has to end below the export's root.

* `isPrefix_of_confine`: what a path is confined to lies below the root;
* `perform_tree`: of all requests only a write changes the tree.
-/

namespace UnionFS

structure Export where
  /-- A path without links: what the export's own path was resolved to. -/
  root : Path
  user : Account
  maxPath : UInt64
  maxIo : UInt64

namespace Export

/-- No position in a file is this great. -/
def offsetLimit : Nat := 2 ^ 63

/-- The object's own path for a path within the export. -/
def confine (e : Export) (t : Tree) (path : String) : Outcome Path := do
  let names ← Path.relative path.toList
  let q ← t.realpath e.root (names.map fun name => Utf8.encode (String.ofList name))
  if e.root.isPrefixOf q then return q else .error .accessDenied

def resolve (e : Export) (t : Tree) (path : String) : Outcome (Path × Node) := do
  let q ← e.confine t path
  match t.lookup q with
  | some n => return (q, n)
  | none => .error .notFound

/-- Whether the session's account is granted `mask`. -/
def authorize (e : Export) (n : Node) (mask : UInt32) : Outcome Unit :=
  if e.user.permits n.mode n.owner n.group mask then .ok () else .error .accessDenied

/-- Whether the process itself is granted `mask`. -/
def granted (t : Tree) (n : Node) (mask : UInt32) : Outcome Unit :=
  if t.grants n mask then .ok () else .error .accessDenied

def getattr (e : Export) (t : Tree) (path : String) : Outcome Stat := do
  return (← e.resolve t path).2.stat

def access (e : Export) (t : Tree) (path : String) (mask : UInt32) : Outcome Unit := do
  e.authorize (← e.resolve t path).2 mask

/-- The child of a directory as an entry: its name has to be text, and links are not followed. -/
def entry? (name : Name) (n : Node) : Option Entry :=
  (Utf8.decode name).map fun name => ⟨name, n.stat⟩

/-- The path of an object is short enough for the object to be used by it. -/
def fits (q : Path) : Bool := (Path.toBytes q).length < Tree.pathLimit

/-- The children of a directory that can be looked at by their own paths. -/
def within (t : Tree) (q : Path) : List (Name × Node) :=
  (t.children q).filter fun (name, _) => fits (q ++ [name])

/-- The children of a directory, by name.  A child is looked at by its own path, and is left out
where that fails. -/
def readdir (e : Export) (t : Tree) (path : String) : Outcome (List Entry) := do
  let (q, n) ← e.resolve t path
  if !n.isDirectory then .error .notDirectory
  e.authorize n Access.read
  granted t n Access.read
  let seen := if t.grants n Access.execute then within t q else []
  return (seen.filterMap fun (name, n) => entry? name n).mergeSort fun a b => a.name ≤ b.name

/-- Up to `size` bytes of a file from `offset` on. -/
def read (e : Export) (t : Tree) (path : String) (size offset : UInt64) : Outcome Bytes := do
  if e.maxIo < size then .error .invalidArgument
  let (_, n) ← e.resolve t path
  if n.isDirectory then .error .isDirectory
  e.authorize n Access.read
  granted t n Access.read
  if offsetLimit ≤ offset.toNat then .error .invalidArgument
  return n.data.slice offset.toNat size.toNat

/-- The first half of a write: the file that `size` bytes may be written to. -/
def openForWrite (e : Export) (t : Tree) (path : String) (size : UInt64) : Outcome Path := do
  if e.maxIo < size then .error .tooLarge
  let (q, n) ← e.resolve t path
  if n.isDirectory then .error .isDirectory
  e.authorize n Access.write
  granted t n Access.write
  return q

/-- The second half of a write: lay `data` over the file. -/
def writeAt (q : Path) (offset : UInt64) (data : Bytes) (t : Tree) : Outcome UInt64 × Tree :=
  if offsetLimit ≤ offset.toNat then (.error .invalidArgument, t)
  else (.ok (UInt64.ofNat data.length), t.modify q (·.overlay offset.toNat data))

/-- The permissions that opening a file with these flags asks for. -/
def accessOfFlags (flags : UInt32) : UInt32 :=
  let mode := flags &&& OpenFlags.accessMask
  if mode == OpenFlags.writeOnly then Access.write
  else if mode == OpenFlags.readWrite then Access.read ||| Access.write
  else Access.read

/-- Whether a file could be opened with these flags.  Nothing is created, cut off or kept open. -/
def openFile (e : Export) (t : Tree) (path : String) (flags : UInt32) : Outcome Unit := do
  let (_, n) ← e.resolve t path
  let mask := accessOfFlags flags
  if mask &&& Access.write != 0 && n.isDirectory then .error .isDirectory
  e.authorize n mask
  if flags &&& OpenFlags.directory != 0 && !n.isDirectory then .error .notDirectory
  granted t n mask

def write (e : Export) (t : Tree) (path : String) (data : Bytes) (offset : UInt64) :
    Outcome UInt64 × Tree :=
  match e.openForWrite t path (UInt64.ofNat data.length) with
  | .error c => (.error c, t)
  | .ok q => writeAt q offset data t

/-- What a request gives, and the tree after it. -/
def perform (e : Export) (t : Tree) : (r : Request) → Outcome r.Answer × Tree
  | .getattr path => (e.getattr t path, t)
  | .access path mask => (e.access t path mask, t)
  | .readdir path => (e.readdir t path, t)
  | .read path size offset => (e.read t path size offset, t)
  | .write path data offset => e.write t path data offset
  | .openFile path flags => (e.openFile t path flags, t)

theorem isPrefix_of_confine {e : Export} {t : Tree} {path : String} {q : Path}
    (h : e.confine t path = .ok q) : e.root <+: q := by
  unfold confine at h
  cases hr : Path.relative path.toList with
  | error c => rw [hr] at h; cases h
  | ok names =>
    rw [hr] at h
    cases hq : t.realpath e.root (names.map fun name => Utf8.encode (String.ofList name)) with
    | error c => simp only [bind, Except.bind, hq] at h; cases h
    | ok q' =>
      simp only [bind, Except.bind, hq] at h
      split at h
      · next hp => cases h; exact List.isPrefixOf_iff_prefix.mp hp
      · cases h

/-- Every request but a write leaves the tree as it is. -/
theorem perform_tree {e : Export} {t : Tree} {r : Request}
    (h : ∀ path data offset, r ≠ .write path data offset) : (e.perform t r).2 = t := by
  cases r with
  | write path data offset => exact absurd rfl (h path data offset)
  | _ => rfl

end Export
end UnionFS
