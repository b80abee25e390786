import UnionFS.Client.Connection
import UnionFS.Union.Basic

/-!
# Fleets

The connections of one client, each known by the name of its server.  A fleet answers what a union
asks.
-/

namespace UnionFS.Client

abbrev Fleet (L : Type) := List (Connection L)

namespace Fleet

variable {m : Type → Type} [Monad m] {L α : Type}

def find? (fleet : Fleet L) (name : String) : Option (Connection L) :=
  List.find? (·.peer.hostname == name) fleet

def update (fleet : Fleet L) (c : Connection L) : Fleet L :=
  fleet.map fun other => if other.peer.hostname == c.peer.hostname then c else other

/-- Do something with the connection of a server. -/
def onServer (name : String) (absent : α) (act : Connection L → m (α × Connection L)) :
    StateT (Fleet L) m α := fun fleet =>
  match fleet.find? name with
  | none => return (absent, fleet)
  | some c => do
    let (a, c) ← act c
    return (a, fleet.update c)

/-- How a fleet answers a question. -/
def answer (net : Carrier m L) : (q : Inquiry) → StateT (Fleet L) m q.Answer
  | .connected name => fun fleet => return ((fleet.find? name).any (·.connected), fleet)
  | .request name r => onServer name (.error .notConnected) fun c => c.request net r
  | .stop name => onServer name true fun c => c.stop net

/-- Connections to some peers, of which those that can be reached are connected. -/
def connectEach (net : Carrier m L) (config : ClientConfig) : List Peer → m (Fleet L)
  | [] => return []
  | peer :: rest => do
    let (_, c) ← Connection.connect net { peer, config }
    return c :: (← connectEach net config rest)

/-- Connect to the peers, of which the first with each host name counts. -/
def start (net : Carrier m L) (config : ClientConfig) (peers : List Peer) :
    m (Union × Fleet L) := do
  let peers := Peer.firstOfEach peers
  let names := peers.foldl (fun u p => (u.add p.hostname).getD u) ({} : Union)
  return (names, ← connectEach net config peers)

end Fleet
end UnionFS.Client
