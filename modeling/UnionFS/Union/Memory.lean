import UnionFS.Export.Basic
import UnionFS.Union.Basic

/-!
# Servers in memory

A server that is a value: files by path, listings by path, and errors that it is made to give.  A
union over such servers runs without any network.
-/

namespace UnionFS

structure MemoryServer where
  name : String
  connected : Bool := true
  files : List (String × Bytes) := []
  directories : List (String × List Entry) := []
  /-- What a request is refused with, by its kind and path; the path `*` stands for all. -/
  failures : List (String × Code) := []
  /-- Whether the connection closes cleanly. -/
  closesCleanly : Bool := true
  /-- The most bytes that are taken in one write. -/
  maxWrite : Option Nat := none

namespace MemoryServer

/-- The name of a request's kind. -/
def kind : Request → String
  | .getattr _ => "getattr"
  | .access _ _ => "access"
  | .readdir _ => "readdir"
  | .read _ _ _ => "read"
  | .write _ _ _ => "write"
  | .openFile _ _ => "open"

def failure? (s : MemoryServer) (r : Request) : Option Code :=
  (s.failures.lookup s!"{kind r} {r.path}").orElse fun _ => s.failures.lookup s!"{kind r} *"

def getattr (s : MemoryServer) (path : String) : Outcome Stat :=
  match s.files.lookup path with
  | some data => .ok { mode := Mode.regular ||| 0o644, size := UInt64.ofNat data.length }
  | none =>
    if (s.directories.lookup path).isSome then .ok { mode := Mode.directory ||| 0o755 }
    else .error .notFound

/-- The content of a file with `data` laid at `offset`.  The file reaches as far as `offset`
afterwards, also where nothing is laid there. -/
def lay (old : Bytes) (offset : Nat) (data : Bytes) : Bytes :=
  Bytes.overlay (old ++ List.replicate (offset - old.length) 0) offset data

/-- The server with other content in one file. -/
def store (s : MemoryServer) (path : String) (data : Bytes) : MemoryServer :=
  { s with files := s.files.map fun f => if f.1 == path then (f.1, data) else f }

def answer (s : MemoryServer) (r : Request) : Outcome r.Answer × MemoryServer :=
  match s.failure? r with
  | some code => (.error code, s)
  | none =>
    match r with
    | .getattr path => (s.getattr path, s)
    | .access path _ => ((s.getattr path).map fun _ => (), s)
    | .openFile path _ => ((s.getattr path).map fun _ => (), s)
    | .readdir path =>
      match s.directories.lookup path with
      | some entries => (.ok entries, s)
      | none => (.error .notFound, s)
    | .read path size offset =>
      match s.files.lookup path with
      | some data => (.ok (data.slice offset.toNat size.toNat), s)
      | none => (.error .notFound, s)
    | .write path data offset =>
      match s.files.lookup path with
      | some old =>
        let part := match s.maxWrite with
          | some most => data.take most
          | none => data
        (.ok (UInt64.ofNat part.length), s.store path (lay old offset.toNat part))
      | none => (.error .notFound, s)

end MemoryServer

/-- Several servers in memory. -/
abbrev MemoryServers := List MemoryServer

namespace MemoryServers

def find? (all : MemoryServers) (name : String) : Option MemoryServer :=
  List.find? (·.name == name) all

def update (all : MemoryServers) (s : MemoryServer) : MemoryServers :=
  all.map fun other => if other.name == s.name then s else other

/-- How the servers answer what a union asks. -/
def answer (all : MemoryServers) : (q : Inquiry) → q.Answer × MemoryServers
  | .connected name => ((all.find? name).any (·.connected), all)
  | .request name r =>
    match all.find? name with
    | some s =>
      let (reply, s) := s.answer r
      (reply, all.update s)
    | none => (.error .notConnected, all)
  | .stop name =>
    match all.find? name with
    | some s => (s.closesCleanly, all.update { s with connected := false })
    | none => (true, all)

end MemoryServers

/-- A union and the servers in memory that it is over. -/
structure MemoryUnion where
  union : Union := {}
  servers : MemoryServers := []

namespace MemoryUnion

variable {α : Type}

/-- One server more, unless there is one of its name. -/
def add (m : MemoryUnion) (s : MemoryServer) : Option MemoryUnion :=
  (m.union.add s.name).map fun union => { union, servers := m.servers ++ [s] }

/-- Connect a server, or cut its connection. -/
def setConnected (m : MemoryUnion) (name : String) (up : Bool) : MemoryUnion :=
  { m with
    servers := m.servers.map fun s => if s.name == name then { s with connected := up } else s }

/-- What a plan asks the servers. -/
def calls (m : MemoryUnion) (p : UnionPlan α) : List Inquiry :=
  p.calls (fun q all => MemoryServers.answer all q) m.servers

/-- What a plan ends in. -/
def run (m : MemoryUnion) (p : UnionPlan α) : α × MemoryUnion :=
  let (a, servers) := p.outcome (fun q all => MemoryServers.answer all q) m.servers
  (a, { m with servers })

end MemoryUnion
end UnionFS
