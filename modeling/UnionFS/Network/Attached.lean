import UnionFS.Client.Fleet
import UnionFS.Endpoint
import UnionFS.Network.Basic

/-!
# Clients on a network in memory

A connection, or a fleet of them, together with the network that it is on.  What a client does can
be run on it step by step.
-/

namespace UnionFS

open Client

/-- A connection and the network it is on. -/
structure Attached where
  connection : Connection Nat
  network : Network

namespace Attached

variable {α : Type}

def carrier (a : Attached) : Carrier (StateM Network) Nat :=
  Network.carrier a.connection.config.ioTimeout

/-- Do something with the connection. -/
def act (a : Attached)
    (f : Carrier (StateM Network) Nat → Connection Nat → StateM Network (α × Connection Nat)) :
    α × Attached :=
  let ((result, connection), network) := (f a.carrier a.connection).run a.network
  (result, { connection, network })

/-- One round of the keepalive loop, with the wait before it; true once the loop has ended. -/
def round (a : Attached) : Bool × Attached :=
  let waited := a.network.wait a.connection.pause.toNat
  let (next, network) := (a.connection.keepalive a.carrier).run waited
  (next.isNone, { connection := next.getD a.connection, network })

/-- Rounds of the keepalive loop until `enough`, and not more than some number of them. -/
def rounds (enough : Attached → Bool) : Nat → Attached → Attached
  | 0, a => a
  | n + 1, a => if enough a then a else rounds enough n a.round.2

/-- So many streams were opened, and the client let go of all of them. -/
def spent (streams : Nat) (a : Attached) : Bool :=
  streams ≤ a.network.lines.length && a.network.lines.all (·.dropped)

end Attached

/-- A host and where it can be reached. -/
structure Site where
  endpoint : Endpoint
  behaviour : Host

namespace Site

def address (s : Site) : String :=
  s!"{s.endpoint.host}:{s.endpoint.port}"

end Site

/-- The network of some hosts. -/
def Network.ofSites (sites : List Site) (tree : Tree) (reachable : Bool) : Network :=
  { hosts := sites.map fun s => (s.address, s.behaviour), tree, reachable }

/-- A union, the connections that it is over and the network they are on. -/
structure AttachedUnion where
  config : ClientConfig
  union : Union
  fleet : Fleet Nat
  network : Network

namespace AttachedUnion

variable {α : Type}

/-- Connect to some peers. -/
def start (config : ClientConfig) (peers : List Peer) (network : Network) : AttachedUnion :=
  let ((union, fleet), network) :=
    (Fleet.start (Network.carrier config.ioTimeout) config peers).run network
  { config, union, fleet, network }

/-- Run a plan on the fleet. -/
def run (a : AttachedUnion) (p : UnionPlan α) : α × AttachedUnion :=
  let net := Network.carrier a.config.ioTimeout
  let onFleet : StateT (Fleet Nat) (StateM Network) α := p.run (Fleet.answer net)
  let ((result, fleet), network) := (onFleet.run a.fleet).run a.network
  (result, { a with fleet, network })

end AttachedUnion
end UnionFS
