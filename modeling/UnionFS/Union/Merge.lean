import UnionFS.Os.Errno
import UnionFS.Union.Tag
import UnionFS.Wire.Stat

/-!
# Merged listings

The listings that several servers give of one directory, merged into one.  A directory keeps its
bare name, and so does a file that only one server has; every other file is listed once per server,
under its tagged name.  Also tagged is a file whose name holds an opener, so that the tag read back
is the one that was attached.

* `mem_listing`: an entry comes from a sighting, and from each file's sighting comes an entry;
* `listing_pairwise`: a listing is sorted by name.
-/

namespace UnionFS

/-- A server lists a name. -/
structure Sighting where
  name : String
  server : String
  stat : Stat
  deriving DecidableEq, Repr

namespace Sighting

/-- Two listings of one name by one server as the same kind of thing. -/
def repeats (a b : Sighting) : Bool :=
  a.name == b.name && a.server == b.server && a.stat.isDirectory == b.stat.isDirectory

end Sighting

/-- What has been listed so far, oldest first. -/
structure Merge where
  sightings : List Sighting := []
  deriving Repr

namespace Merge

/-- Record a sighting; one that repeats an earlier one is refused. -/
def add (m : Merge) (s : Sighting) : Outcome Merge :=
  if m.sightings.any (·.repeats s) then .error .alreadyExists
  else .ok ⟨m.sightings ++ [s]⟩

/-- Record a whole listing, and count the entries that were refused. -/
def addEntries (m : Merge) (server : String) : List Entry → Merge × Nat
  | [] => (m, 0)
  | e :: rest =>
    match m.add ⟨e.name, server, e.stat⟩ with
    | .ok m' => m'.addEntries server rest
    | .error _ =>
      let (m', skipped) := m.addEntries server rest
      (m', skipped + 1)

def isEmpty (m : Merge) : Bool := m.sightings.isEmpty

def directories (m : Merge) : List Sighting := m.sightings.filter (·.stat.isDirectory)
def files (m : Merge) : List Sighting := m.sightings.filter (!·.stat.isDirectory)

/-- The first sighting of each name. -/
def firstOfEach (l : List Sighting) : List Sighting :=
  l.foldr (fun s rest => s :: rest.filter (·.name != s.name)) []

/-- A file keeps its bare name if one server has it, no server has a directory of that name, and the
name holds no opener. -/
def keepsName (m : Merge) (s : Sighting) : Bool :=
  (m.files.filter (·.name == s.name)).length == 1
    && !m.directories.any (·.name == s.name) && !Tag.hasOpener s.name

def listedName (m : Merge) (s : Sighting) : String :=
  if m.keepsName s then s.name else Tag.attach s.name s.server

def directoryEntries (m : Merge) : List Entry :=
  (firstOfEach m.directories).map fun s => ⟨s.name, s.stat⟩

/-- Files by name, the copies of one name in the order in which they were seen. -/
def fileEntries (m : Merge) : List Entry :=
  (m.files.mergeSort fun a b => a.name ≤ b.name).map fun s => ⟨m.listedName s, s.stat⟩

/-- The merged listing, by name.  Of entries with one name a directory stands first. -/
def listing (m : Merge) : List Entry :=
  (m.directoryEntries ++ m.fileEntries).mergeSort fun a b => a.name ≤ b.name

theorem mem_listing {m : Merge} {e : Entry} :
    e ∈ m.listing ↔ e ∈ m.directoryEntries
      ∨ ∃ s ∈ m.files, e = ⟨m.listedName s, s.stat⟩ := by
  simp [listing, fileEntries, eq_comm]

theorem listing_pairwise (m : Merge) :
    m.listing.Pairwise fun a b => a.name ≤ b.name := by
  have trans : ∀ a b c : Entry, decide (a.name ≤ b.name) = true → decide (b.name ≤ c.name) = true →
      decide (a.name ≤ c.name) = true := by
    simpa using fun a b c : Entry => fun h h' => String.le_trans h h'
  have total : ∀ a b : Entry, (decide (a.name ≤ b.name) || decide (b.name ≤ a.name)) = true := by
    simpa using fun a b : Entry => String.le_total a.name b.name
  simpa [listing] using
    List.pairwise_mergeSort trans total (m.directoryEntries ++ m.fileEntries)

end Merge
end UnionFS
