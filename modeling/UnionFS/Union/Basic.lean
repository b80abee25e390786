import UnionFS.Account
import UnionFS.Plan
import UnionFS.Request
import UnionFS.Union.Merge

/-!
# The union

One namespace over many servers.  A path with a server's tag goes to that server alone.  Any other
path goes to every connected server: a look-up takes the first success in the order of the servers'
names, a write stops at the first server that takes it, and listings are merged.

Every operation is a plan over the servers: what it asks of whom is part of its value.

* `mem_servers_of_add`: a union has the servers that were added to it, and no others.
-/

namespace UnionFS

/-- What an operation on the union asks. -/
inductive Inquiry where
  /-- Is there a connection to this server? -/
  | connected (server : String)
  | request (server : String) (request : Request)
  /-- Close the connection to this server. -/
  | stop (server : String)
  deriving DecidableEq, Repr

namespace Inquiry

abbrev Answer : Inquiry → Type
  | connected _ => Bool
  | request _ r => Outcome r.Answer
  | stop _ => Bool

/-- The server that is asked to do something; finding out whether it is connected asks it nothing.
-/
def called? : Inquiry → Option String
  | connected _ => none
  | request server _ => some server
  | stop server => some server

end Inquiry

abbrev UnionPlan := Plan Inquiry Inquiry.Answer

/-- A server that accepted to open a file. -/
structure FileHandle where
  server : String
  deriving DecidableEq, Repr

/-- The names of the servers, each once and in ascending order. -/
structure Union where
  servers : List String := []
  ascending : servers.Pairwise (· < ·) := by simp
  deriving Repr

namespace Union

variable {α : Type}

theorem nodup_servers (u : Union) : u.servers.Nodup :=
  u.ascending.imp fun h => String.ne_of_lt h

/-- `name` in its place among names in ascending order. -/
def insertName (name : String) : List String → List String
  | [] => [name]
  | n :: rest => if name < n then name :: n :: rest else n :: insertName name rest

theorem mem_insertName {name x : String} {names : List String} :
    x ∈ insertName name names ↔ x = name ∨ x ∈ names := by
  induction names with
  | nil => simp [insertName]
  | cons n rest ih =>
    rw [insertName]
    split
    · simp
    · simp only [List.mem_cons, ih]
      exact or_left_comm

theorem ascending_insertName {name : String} {names : List String}
    (h : names.Pairwise (· < ·)) (absent : name ∉ names) :
    (insertName name names).Pairwise (· < ·) := by
  induction names with
  | nil => simp [insertName]
  | cons n rest ih =>
    obtain ⟨below, ascending⟩ := List.pairwise_cons.mp h
    rw [insertName]
    split
    · next less =>
      refine List.pairwise_cons.mpr ⟨fun x hx => ?_, h⟩
      rcases List.mem_cons.mp hx with rfl | hx
      · exact less
      · exact String.lt_trans less (below x hx)
    · next notLess =>
      have hne : n ≠ name := fun e => absent (e ▸ List.mem_cons_self)
      have hlt : n < name := Decidable.byContradiction fun h =>
        hne (String.le_antisymm (String.not_lt.mp notLess) (String.not_lt.mp h))
      have absent' : name ∉ rest := fun hm => absent (List.mem_cons_of_mem n hm)
      refine List.pairwise_cons.mpr ⟨fun x hx => ?_, ih ascending absent'⟩
      rcases mem_insertName.mp hx with rfl | hx
      · exact hlt
      · exact below x hx

/-- One server more, unless there is one of its name. -/
def add (u : Union) (server : String) : Option Union :=
  if h : server ∈ u.servers then none
  else some ⟨insertName server u.servers, ascending_insertName u.ascending h⟩

theorem mem_servers_of_add {u u' : Union} {server x : String} (h : u.add server = some u') :
    x ∈ u'.servers ↔ x = server ∨ x ∈ u.servers := by
  unfold add at h
  split at h
  · cases h
  · cases h
    exact mem_insertName

/-- Where a path leads. -/
inductive Route where
  | tagged (server path : String)
  /-- The tag names no server. -/
  | unknown
  | untagged (path : String)
  deriving DecidableEq, Repr

def route (u : Union) (path : String) : Route :=
  let address := Address.ofPath path
  if address.server.isEmpty then .untagged address.path
  else if u.servers.contains address.server then .tagged address.server address.path
  else .unknown

def ask (server : String) (r : Request) : UnionPlan (Outcome r.Answer) :=
  .question (Inquiry.request server r)

/-- Those of the servers that are connected. -/
def connectedOf : List String → UnionPlan (List String)
  | [] => return []
  | server :: rest => do
    let up ← Plan.question (Inquiry.connected server)
    let others ← connectedOf rest
    return if up then server :: others else others

def connected (u : Union) : UnionPlan (List String) :=
  connectedOf u.servers

/-- The answers of several servers to the same question. -/
def askEach (question : String → UnionPlan α) : List String → UnionPlan (List (String × α))
  | [] => return []
  | server :: rest => do
    let answer ← question server
    return (server, answer) :: (← askEach question rest)

/-- The first success, or else the last error. -/
def firstSuccess : Code → List (String × Outcome α) → Outcome (String × α)
  | last, [] => .error last
  | _, (server, .ok value) :: _ => .ok (server, value)
  | _, (_, .error code) :: rest => firstSuccess code rest

/-- Ask every connected server; the first success in the order of names counts. -/
def askConnected (u : Union) (question : String → UnionPlan (Outcome α)) :
    UnionPlan (Outcome (String × α)) := do
  return firstSuccess .notFound (← askEach question (← u.connected))

/-- Ask the server that the path names, or every connected one. -/
def lookup (u : Union) (path : String) (question : (server path : String) → UnionPlan (Outcome α)) :
    UnionPlan (Outcome (String × α)) :=
  match u.route path with
  | .tagged server path => do return (← question server path).map (server, ·)
  | .unknown => return .error .notFound
  | .untagged path => u.askConnected (question · path)

def getattr (u : Union) (path : String) : UnionPlan (Outcome Stat) := do
  return (← u.lookup path fun server path => ask server (.getattr path)).map (·.2)

def access (u : Union) (path : String) (mask : UInt32) : UnionPlan (Outcome Unit) := do
  return (← u.lookup path fun server path => ask server (.access path mask)).map (·.2)

/-- Check that a file can be opened, and remember by whom. -/
def openFile (u : Union) (path : String) (flags : UInt32) : UnionPlan (Outcome FileHandle) := do
  return (← u.lookup path fun server path => ask server (.openFile path flags)).map (⟨·.1⟩)

/-- The server of a handle, if it is one of ours. -/
def holder? (u : Union) (handle : Option FileHandle) : Option String :=
  (handle.map (·.server)).filter u.servers.contains

def read (u : Union) (path : String) (size offset : UInt64) (handle : Option FileHandle) :
    UnionPlan (Outcome Bytes) :=
  let question (server path : String) : UnionPlan (Outcome Bytes) :=
    ask server (.read path size offset)
  match u.route path with
  | .tagged server path => question server path
  | .unknown => return .error .notFound
  | .untagged path =>
    match u.holder? handle with
    | some server => question server path
    | none => do return (← u.askConnected (question · path)).map (·.2)

/-- Try servers one after another until one succeeds; the last error if none does. -/
def tryEach (question : String → UnionPlan (Outcome α)) : Code → List String → UnionPlan (Outcome α)
  | last, [] => return .error last
  | _, server :: rest => do
    match ← question server with
    | .ok value => return .ok value
    | .error code => tryEach question code rest

def write (u : Union) (path : String) (data : Bytes) (offset : UInt64)
    (handle : Option FileHandle) : UnionPlan (Outcome UInt64) :=
  let question (server path : String) : UnionPlan (Outcome UInt64) :=
    ask server (.write path data offset)
  match u.route path with
  | .tagged server path => question server path
  | .unknown => return .error .notFound
  | .untagged path =>
    match u.holder? handle with
    | some server => question server path
    | none => do tryEach (question · path) .notFound (← u.connected)

/-- Overwrite a file from its start.  Nothing can be cut off, so that a longer file is refused. -/
def replace (u : Union) (path : String) (data : Bytes) :
    UnionPlan (Outcome (String × UInt64)) := do
  match ← u.openFile path OpenFlags.writeOnly with
  | .error code => return .error code
  | .ok handle =>
    let path := (Address.ofPath path).path
    match ← ask handle.server (.getattr path) with
    | .error code => return .error code
    | .ok (stat : Stat) =>
      if data.length < stat.size.toNat then return .error .notSupported
      match ← ask handle.server (.write path data 0) with
      | .error code => return .error code
      | .ok written => return .ok (handle.server, written)

/-- Merge the listings that were given. -/
def mergeListings : List (String × Outcome (List Entry)) → Merge → Merge
  | [], m => m
  | (server, .ok entries) :: rest, m => mergeListings rest (m.addEntries server entries).1
  | (_, .error _) :: rest, m => mergeListings rest m

/-- The merged listing if any server gave one, or else the last error. -/
def mergedListing (answers : List (String × Outcome (List Entry))) : Outcome (List Entry) :=
  match firstSuccess .notFound answers with
  | .error code => .error code
  | .ok _ => .ok (mergeListings answers {}).listing

def readdir (u : Union) (path : String) : UnionPlan (Outcome (List Entry)) :=
  match u.route path with
  | .tagged server path => ask server (.readdir path)
  | .unknown => return .error .notFound
  | .untagged path => do
    return mergedListing (← askEach (fun server => ask server (.readdir path)) (← u.connected))

/-- Any request, where a handle tells which server a file was opened on. -/
def perform (u : Union) (handle : Option FileHandle) : (r : Request) → UnionPlan (Outcome r.Answer)
  | .getattr path => u.getattr path
  | .access path mask => u.access path mask
  | .readdir path => u.readdir path
  | .read path size offset => u.read path size offset handle
  | .write path data offset => u.write path data offset handle
  | .openFile path flags => do return (← u.openFile path flags).map fun _ => ()

/-- The connected servers on which a path, without its tag, is there. -/
def locate (u : Union) (path : String) : UnionPlan (List String) := do
  let path := (Address.ofPath path).path
  let answers ← askEach (fun server => ask server (.access path Access.exists_)) (← u.connected)
  return (answers.filter fun (_, answer) => answer.toOption.isSome).map (·.1)

/-- Close every connection; true if all closed cleanly. -/
def shutdown (u : Union) : UnionPlan Bool := do
  let answers ← askEach (fun server => .question (Inquiry.stop server)) u.servers
  return answers.all (·.2)

end Union
end UnionFS
