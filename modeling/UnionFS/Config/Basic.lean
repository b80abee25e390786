import UnionFS.Failure
import UnionFS.Path

/-!
# Configuration

The settings of a server and of a client, with their defaults, and the check that no setting makes a
session unusable.  Times are in milliseconds.
-/

namespace UnionFS

structure ServerConfig where
  /-- The address to listen on. -/
  bind : String := "0.0.0.0:2678"
  /-- The file with the authorized keys. -/
  keyList : String := "/var/lib/agfs/keylist.keys"
  /-- The window in which something has to be heard; an idle window counts as a miss. -/
  readTimeout : UInt64 := 5000
  /-- How long the rest of a request may take once its command has begun. -/
  ioTimeout : UInt64 := 10000
  maxPath : UInt64 := 4096
  maxIo : UInt64 := 16777216
  deriving DecidableEq, Repr

structure ClientConfig where
  /-- The directory with the key files of the peers. -/
  keyDir : String
  heartbeatInterval : UInt64 := 5000
  reconnectInterval : UInt64 := 30000
  /-- How long connecting, and each exchange, may take. -/
  ioTimeout : UInt64 := 10000
  maxPath : UInt64 := 4096
  /-- The greatest block in one exchange; larger requests are split. -/
  maxIo : UInt64 := 16777216
  /-- The most entries that a listing may have. -/
  maxEntries : UInt64 := 1048576
  deriving DecidableEq, Repr

structure Config where
  server : ServerConfig
  client : ClientConfig
  deriving DecidableEq, Repr

namespace Config

/-- The client's key directory is below the home directory, if there is one. -/
def defaultKeyDir (home : Option String) : String :=
  match home with
  | some home => Path.join home ".agfs"
  | none => ".agfs"

def default (home : Option String) : Config :=
  { server := {}, client := { keyDir := defaultKeyDir home } }

/-- The settings that have to be positive, in the order in which they are checked. -/
def positives (c : Config) : List (String × UInt64) := [
  ("server.readTimeoutMs", c.server.readTimeout),
  ("server.ioTimeoutMs", c.server.ioTimeout),
  ("server.maxPathLen", c.server.maxPath),
  ("server.maxIoSize", c.server.maxIo),
  ("client.heartbeatIntervalMs", c.client.heartbeatInterval),
  ("client.reconnectIntervalMs", c.client.reconnectInterval),
  ("client.ioTimeoutMs", c.client.ioTimeout),
  ("client.maxPathLen", c.client.maxPath),
  ("client.maxIoSize", c.client.maxIo)]

/-- Why a configuration cannot be used. -/
inductive Fault where
  | notPositive (setting : String)
  | noBind
  deriving DecidableEq, Repr

def Fault.message : Fault → String
  | notPositive setting => s!"{setting} must be positive"
  | noBind => "server.bind is empty"

/-- The first fault of a configuration. -/
def fault? (c : Config) : Option Fault :=
  match c.positives.find? (·.2 == 0) with
  | some (setting, _) => some (.notPositive setting)
  | none => if c.server.bind.isEmpty then some .noBind else none

def validate (c : Config) : Except SetupError Unit :=
  match c.fault? with
  | some fault => .error (.config fault.message)
  | none => .ok ()

/-- A configuration without faults has a bind address and no setting of zero that is checked. -/
theorem fault?_eq_none_iff (c : Config) :
    c.fault? = none ↔ (∀ s ∈ c.positives, s.2 ≠ 0) ∧ c.server.bind.isEmpty = false := by
  unfold fault?
  cases h : c.positives.find? (·.2 == 0) with
  | some s =>
    have hs := List.find?_some h
    have hm := List.mem_of_find?_eq_some h
    simp only [beq_iff_eq] at hs
    simp only [reduceCtorEq, false_iff, not_and]
    exact fun hall => absurd hs (hall s hm)
  | none =>
    rw [List.find?_eq_none] at h
    have h' : ∀ s ∈ c.positives, s.2 ≠ 0 := fun s hs => by simpa using h s hs
    cases hb : c.server.bind.isEmpty with
    | true => simp
    | false => simpa using fun a b hab => h' (a, b) hab

end Config
end UnionFS
