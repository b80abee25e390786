import UnionFS.Client.Carrier
import UnionFS.Session.Basic

/-!
# A network in memory

Hosts, the streams between them and a client, and the tree that the hosts export, as one value.  A
host either serves sessions or follows a script.  Bytes arrive as soon as they are sent, so that who
waits for more than has arrived waits in vain: until the stream ends, or until patience does.

* `received_take`: a stream gives its bytes in order, each once.
-/

namespace UnionFS

/-- What a scripted host does on one stream: once it has a whole token it sends its reply, then
closes its side or stays silent. -/
structure Script where
  reply : Bytes
  holds : Bool := false
  deriving Repr

inductive Host where
  /-- The streams it accepts, one after another, and no more. -/
  | scripted (scripts : List Script)
  | serving (gate : Gate)

/-- The end of a stream that is not the client's. -/
inductive FarEnd where
  | scripted (script : Script)
  | session (session : Session)

/-- A stream between the client and a host. -/
structure Line where
  address : String
  far : FarEnd
  /-- All that the client has sent. -/
  sent : Bytes := []
  /-- What the far end has sent and the client has not taken. -/
  arrived : Bytes := []
  /-- The far end will send nothing more. -/
  ended : Bool := false
  /-- The client has let go. -/
  dropped : Bool := false

structure Network where
  /-- The hosts, by address and port. -/
  hosts : List (String × Host) := []
  tree : Tree
  /-- The time in milliseconds. -/
  clock : Nat := 0
  /-- The streams, oldest first. -/
  lines : List Line := []
  /-- There is a way to the hosts. -/
  reachable : Bool := true

namespace Line

/-- What a session's reaction does to its stream. -/
def react (l : Line) (r : Reaction) : Line :=
  { l with
    far := .session r.session, arrived := l.arrived ++ r.sent
    ended := r.session.closedAt?.isSome }

/-- Take the next bytes, if they have all arrived. -/
def take? (l : Line) (count : Nat) : Option (Bytes × Line) :=
  if count ≤ l.arrived.length then
    some (l.arrived.take count, { l with arrived := l.arrived.drop count })
  else none

/-- The bytes reach the far end. -/
def deliver (l : Line) (now : Nat) (t : Tree) (bytes : Bytes) : Line × Tree :=
  let l := { l with sent := l.sent ++ bytes }
  match l.far with
  | .scripted script =>
    let before := l.sent.length - bytes.length
    if before < Wire.tokenWidth && Wire.tokenWidth ≤ l.sent.length then
      ({ l with arrived := l.arrived ++ script.reply, ended := !script.holds }, t)
    else (l, t)
  | .session s =>
    let r := s.arrive now t bytes
    (l.react r, r.tree)

/-- The client has closed its side. -/
def close (l : Line) (now : Nat) (t : Tree) : Line × Tree :=
  match l.far with
  | .scripted _ => (l, t)
  | .session s =>
    let r := s.hangUp now t
    (l.react r, r.tree)

/-- Time passes. -/
def pass (l : Line) (time : Nat) : Line :=
  match l.far with
  | .scripted _ => l
  | .session s =>
    let s := s.pass time
    { l with far := .session s, ended := s.closedAt?.isSome }

theorem received_take {l l' : Line} {count : Nat} {bytes : Bytes}
    (h : l.take? count = some (bytes, l')) :
    bytes ++ l'.arrived = l.arrived ∧ bytes.length = count := by
  unfold take? at h
  split at h
  · next hc => cases h; exact ⟨List.take_append_drop count l.arrived, by simp [hc]⟩
  · cases h

end Line

namespace Network

/-- The host has no way out. -/
def unreachable : IoError := .system 101
/-- The host listens to nobody at this port. -/
def refused : IoError := .system 111

/-- The far end of a new stream to an address. -/
def accept (n : Network) (address : String) : Except IoError FarEnd :=
  if !n.reachable then .error unreachable
  else match n.hosts.lookup address with
    | none => .error refused
    | some (.serving gate) => .ok (.session (.start gate n.clock))
    | some (.scripted scripts) =>
      match scripts[(n.lines.filter (·.address == address)).length]? with
      | some script => .ok (.scripted script)
      | none => .error refused

/-- Open a stream: a stream is known by its number. -/
def dial (n : Network) (address : String) : Except Client.DialFailure Nat × Network :=
  match n.accept address with
  | .error cause => (.error (.refused cause), n)
  | .ok far => (.ok n.lines.length, { n with lines := n.lines ++ [{ address, far }] })

/-- Change one stream, and with it the tree. -/
def onLine (n : Network) (line : Nat) (change : Line → Line × Tree) : Network :=
  match n.lines[line]? with
  | some l => let (l, tree) := change l; { n with lines := n.lines.set line l, tree }
  | none => n

def send (n : Network) (line : Nat) (bytes : Bytes) : Network :=
  n.onLine line (·.deliver n.clock n.tree bytes)

def shutdown (n : Network) (line : Nat) : Network :=
  n.onLine line (·.close n.clock n.tree)

def drop (n : Network) (line : Nat) : Network :=
  n.onLine line fun l =>
    let (l, t) := l.close n.clock n.tree
    ({ l with dropped := true }, t)

def wait (n : Network) (milliseconds : Nat) : Network :=
  let clock := n.clock + milliseconds
  { n with clock, lines := n.lines.map (·.pass clock) }

/-- Take bytes off a stream.  Where the stream has ended the rest of it is lost; where it is only
silent the client waits as long as its patience lasts. -/
def receive (n : Network) (patience line count : Nat) : Except WireError Bytes × Network :=
  match n.lines[line]? with
  | none => (.error .closed, n)
  | some l =>
    match l.take? count with
    | some (bytes, l) => (.ok bytes, { n with lines := n.lines.set line l })
    | none =>
      if l.ended then
        (.error .closed, { n with lines := n.lines.set line { l with arrived := [] } })
      else (.error .timeout, n.wait patience)

/-- The network as a client uses it. -/
def carrier (patience : UInt64) : Client.Carrier (StateM Network) Nat where
  dial address := fun n => n.dial address
  send line bytes := fun n => (.ok (), n.send line bytes)
  receive line count := fun n => n.receive patience.toNat line count
  shutdown line := fun n => (.ok (), n.shutdown line)
  drop line := fun n => ((), n.drop line)

end Network
end UnionFS
