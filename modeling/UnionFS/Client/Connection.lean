import UnionFS.Client.Carrier
import UnionFS.Client.Exchange
import UnionFS.Client.Split
import UnionFS.Config.Basic
import UnionFS.Keys.Peer
import UnionFS.Wire.Handshake

/-!
# Connections

A client's connection to one server.  It holds at most one stream, and lets go of it as soon as an
exchange fails, so that no later exchange reads what an earlier one left behind.

* `Consistent`: a connection counts as connected exactly while it holds a stream.
-/

namespace UnionFS

/-- The most that a client with these settings takes. -/
def ClientConfig.limits (config : ClientConfig) : Client.Limits :=
  { maxPath := config.maxPath, maxEntries := config.maxEntries }

namespace Client

structure Connection (L : Type) where
  peer : Peer
  config : ClientConfig
  line : Option L := none
  connected : Bool := false
  /-- No stream will be opened any more. -/
  stopped : Bool := false

namespace Connection

variable {m : Type → Type} [Monad m] {L α : Type}

/-- The connection without its stream. -/
def lost (c : Connection L) : Connection L :=
  { c with line := none, connected := false }

/-- The connection with a new stream. -/
def gained (c : Connection L) (line : L) : Connection L :=
  { c with line := some line, connected := true }

/-- Open a stream and shake hands, in place of any earlier stream.  A failure leaves that as it
was. -/
def connect (net : Carrier m L) (c : Connection L) :
    m (Except ConnectionError Unit × Connection L) := do
  if c.stopped then return (.error .stopped, c)
  match ← net.dial c.peer.address with
  | .error .timeout => return (.error .timeout, c)
  | .error (.refused cause) => return (.error (.connect c.peer.address cause), c)
  | .ok line =>
    match ← net.converse line (shakeHands c.peer.key) with
    | .error e =>
      net.drop line
      return (.error (.ofWire e), c)
    | .ok (.rejected reason) =>
      let _ ← net.shutdown line
      net.drop line
      return (.error (.handshake c.peer.hostname reason), c)
    | .ok .accepted =>
      match c.line with
      | some old => net.drop old
      | none => pure ()
      return (.ok (), c.gained line)

/-- One exchange.  After an error of the stream the connection has none. -/
def transact (net : Carrier m L) (c : Connection L) (d : Dialogue Unit (Outcome α)) :
    m (Outcome α × Connection L) := do
  match c.line with
  | none => return (.error .notConnected, c)
  | some line =>
    match ← net.converse line d with
    | .ok reply => return (reply, c)
    | .error e =>
      net.drop line
      return (.error e.code, c.lost)

/-- Make a request, in as many exchanges as it takes.  Too long a path is refused at once. -/
def request (net : Carrier m L) (c : Connection L) (r : Request) :
    m (Outcome r.Answer × Connection L) := do
  if c.config.maxPath.toNat < (Utf8.encode r.path).length then
    return (.error .nameTooLong, c)
  let single (q : Request) : StateT (Connection L) m (Outcome q.Answer) :=
    fun now => now.transact net (exchange c.config.limits q)
  (split c.config.maxIo r).run single c

/-- Whether the server answers a heartbeat. -/
def beat (net : Carrier m L) (c : Connection L) : m (Bool × Connection L) := do
  let (reply, c) ← c.transact net (do return .ok (← heartbeat))
  return (reply.toOption.isSome, c)

/-- Say goodbye and let the stream go; true unless that failed. -/
def stop (net : Carrier m L) (c : Connection L) : m (Bool × Connection L) := do
  let last := { c.lost with stopped := true }
  match c.line with
  | none => return (true, last)
  | some line =>
    match ← net.send line (Wire.ofCommand .stop) with
    | .error _ =>
      net.drop line
      return (false, last)
    | .ok () =>
      let closed ← net.shutdown line
      net.drop line
      return (closed.toOption.isSome, last)

/-- How long the keepalive loop waits. -/
def pause (c : Connection L) : UInt64 :=
  if c.connected then c.config.heartbeatInterval else c.config.reconnectInterval

/-- One round of the keepalive loop, after its wait: a heartbeat while connected, otherwise an
attempt to connect.  The loop ends, with `none`, once the connection is stopped. -/
def keepalive (net : Carrier m L) (c : Connection L) : m (Option (Connection L)) := do
  if c.stopped then return none
  else if c.connected then return some (← c.beat net).2
  else return some (← c.connect net).2

/-- The flag says whether there is a stream. -/
def Consistent (c : Connection L) : Prop :=
  c.connected = c.line.isSome

theorem consistent_lost (c : Connection L) : c.lost.Consistent := rfl

theorem consistent_gained (c : Connection L) (line : L) : (c.gained line).Consistent := rfl

end Connection
end Client
end UnionFS
