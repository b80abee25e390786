import UnionFS.Client.Fleet
import UnionFS.Client.Shutdown

/-!
# Launching a fleet

Every peer is tried, and then the keepalive loop of every connection begins, whether its peer was
reached or not: the loop goes on trying.
-/

namespace UnionFS.Client

variable {L : Type} (τ ι : Type) [DecidableEq τ] [DecidableEq ι]

/-- A connection whose keepalive loop has begun. -/
def Connection.tended (c : Connection L) : Shared (User τ ι) L Unit :=
  Shared.start { connection := c, network := () } .loop .keepalive

/-- Connect to the peers, and begin the loops. -/
def Fleet.launch {m : Type → Type} [Monad m] (net : Carrier m L) (config : ClientConfig)
    (peers : List Peer) : m (Union × List (Shared (User τ ι) L Unit)) := do
  let (names, fleet) ← start net config peers
  return (names, fleet.map (·.tended τ ι))

end UnionFS.Client
