import UnionFS.Account
import UnionFS.Path
import UnionFS.Os.Error

/-!
# File trees

A tree gives each absolute path at most one object: a file with its content, a directory, or a link.
No object has two paths, and there is room for whatever is written.  Writing changes the content of
files and nothing else: the times of an object are what the machine notes about it, by itself and
whenever it likes (`UnionFS.Tree.Dates`).

* `lookup_modify`: changing one object leaves all others as they were;
* `lookup_put`: and so does putting one.
-/

namespace UnionFS

inductive Content where
  | file (data : Bytes)
  | directory
  | link (target : Bytes)
  deriving DecidableEq, Repr

structure Node where
  content : Content
  permissions : UInt32
  owner : UInt32 := 0
  group : UInt32 := 0
  /-- The device that the object is on. -/
  dev : UInt64 := 0
  /-- The size that is shown of an object that is no file. -/
  extent : UInt64 := 0
  atime : Int64 := 0
  mtime : Int64 := 0
  ctime : Int64 := 0
  deriving DecidableEq, Repr

namespace Node

def isDirectory (n : Node) : Bool :=
  match n.content with
  | .directory => true
  | _ => false

/-- The kind and the permissions. -/
def mode (n : Node) : UInt32 :=
  match n.content with
  | .file _ => Mode.regular ||| n.permissions
  | .directory => Mode.directory ||| n.permissions
  | .link _ => Mode.link ||| n.permissions

def size (n : Node) : UInt64 :=
  match n.content with
  | .file data => UInt64.ofNat data.length
  | _ => n.extent

/-- What is shown of an object. -/
def stat (n : Node) : Stat :=
  { dev := n.dev, mode := n.mode, size := n.size, atime := n.atime, mtime := n.mtime
    ctime := n.ctime }

/-- The content of a file; nothing for any other object. -/
def data (n : Node) : Bytes :=
  match n.content with
  | .file data => data
  | _ => []

/-- A file with `data` laid over its content. -/
def overlay (n : Node) (offset : Nat) (data : Bytes) : Node :=
  match n.content with
  | .file old => { n with content := .file (old.overlay offset data) }
  | _ => n

@[simp] theorem mode_overlay (n : Node) (offset : Nat) (data : Bytes) :
    (n.overlay offset data).mode = n.mode := by
  cases n with | mk content => cases content <;> rfl

@[simp] theorem isDirectory_overlay (n : Node) (offset : Nat) (data : Bytes) :
    (n.overlay offset data).isDirectory = n.isDirectory := by
  cases n with | mk content => cases content <;> rfl

theorem overlay_nil (n : Node) (offset : Nat) : n.overlay offset [] = n := by
  cases n with | mk content => cases content <;> rfl

theorem overlay_overlay (n : Node) (offset : Nat) (data more : Bytes) :
    (n.overlay offset data).overlay (offset + data.length) more =
      n.overlay offset (data ++ more) := by
  cases n with
  | mk content =>
      cases content with
      | file old => simp only [overlay, Bytes.overlay_overlay]
      | _ => rfl

end Node

/-- A file tree, with the rights of the process that works on it. -/
structure Tree where
  nodes : List (Path × Node)
  /-- The process may override permissions and give files away, as the superuser may; otherwise it
  is bound by the permissions of user 0. -/
  privileged : Bool := true

namespace Tree

def lookup (t : Tree) (path : Path) : Option Node :=
  t.nodes.lookup path

def isDirectory (t : Tree) (path : Path) : Bool :=
  (t.lookup path).any (·.isDirectory)

/-- Whether the process itself is granted `mask` on an object. -/
def grants (t : Tree) (n : Node) (mask : UInt32) : Bool :=
  t.privileged || Mode.classBits n.mode n.owner n.group 0 0 &&& mask == mask

/-- The children of a directory. -/
def children (t : Tree) (path : Path) : List (Name × Node) :=
  t.nodes.filterMap fun (p, n) =>
    match p.getLast? with
    | some name => if p.dropLast == path then some (name, n) else none
    | none => none

/-- Change the object at a path. -/
def modify (t : Tree) (path : Path) (f : Node → Node) : Tree :=
  { t with nodes := t.nodes.map fun e => (e.1, if e.1 == path then f e.2 else e.2) }

/-- Put an object at a path, in place of what was there. -/
def put (t : Tree) (path : Path) (n : Node) : Tree :=
  if (t.lookup path).isSome then t.modify path fun _ => n
  else { t with nodes := t.nodes ++ [(path, n)] }

theorem grants_of_privileged {t : Tree} (h : t.privileged = true) (n : Node) (mask : UInt32) :
    t.grants n mask = true := by
  rw [grants, h]
  rfl

theorem lookup_modify (t : Tree) (path q : Path) (f : Node → Node) :
    (t.modify path f).lookup q = if q = path then (t.lookup q).map f else t.lookup q := by
  simp only [lookup, modify]
  induction t.nodes with
  | nil => simp
  | cons head rest ih =>
    obtain ⟨p, n⟩ := head
    simp only [List.map_cons, List.lookup_cons]
    by_cases hq : q = p
    · subst hq
      by_cases hp : q = path <;> simp [hp]
    · have : (q == p) = false := by simpa using hq
      simpa only [this] using ih

theorem modify_id (t : Tree) (path : Path) : (t.modify path fun n => n) = t := by
  simp [modify]

theorem modify_modify (t : Tree) (path : Path) (f g : Node → Node) :
    (t.modify path f).modify path g = t.modify path fun n => g (f n) := by
  simp only [modify, List.map_map]
  congr 1
  refine List.map_congr_left fun e _ => ?_
  by_cases he : e.1 = path <;> simp [he]

@[simp] theorem privileged_modify (t : Tree) (path : Path) (f : Node → Node) :
    (t.modify path f).privileged = t.privileged := rfl

theorem lookup_put (t : Tree) (path q : Path) (n : Node) :
    (t.put path n).lookup q = if q = path then some n else t.lookup q := by
  unfold put
  split
  · next h =>
    rw [lookup_modify]
    split
    · next e => subst e; obtain ⟨m, hm⟩ := Option.isSome_iff_exists.mp h; simp [hm]
    · rfl
  · next h =>
    have hn : t.lookup path = none := by simpa using h
    by_cases hq : q = path
    · subst hq
      simp only [lookup] at hn
      simp [lookup, List.lookup_append, hn]
    · have : (q == path) = false := by simpa using hq
      simp [lookup, List.lookup_append, hq, List.lookup_cons, this]

end Tree
end UnionFS
