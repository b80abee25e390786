import UnionFS.Export.Serve
import UnionFS.Session.Heartbeat
import UnionFS.Session.Login

/-!
# Sessions

A session serves one connection from its handshake to its end.  It is driven by three events: bytes
arrive, the client closes its side, and the time of the current wait runs out.  Computing takes no
time, so that a session is always in one of its phases, waiting.  The client takes what it is sent;
one that goes away for good is left to `Session.leave`.

* Before the handshake is complete, in the middle of a command and in the middle of a request,
  running out of time ends the session.
* Between requests it counts as a missed heartbeat, and starts the next wait.
-/

namespace UnionFS

/-- What a session waits for. -/
inductive Phase where
  /-- The rest of the token. -/
  | authenticating (pending : Dialogue Tree (Except HandshakeFailure Export))
  /-- The first byte of a command. -/
  | idle (served : Export)
  /-- The second byte of a command. -/
  | half (served : Export)
  /-- The rest of a request. -/
  | busy (served : Export) (pending : Dialogue Tree Unit)
  /-- Nothing: the session ended at this time. -/
  | closed (time : Nat)

structure Session where
  gate : Gate
  phase : Phase
  /-- What has arrived and was not yet read. -/
  unread : Bytes := []
  /-- The client has closed its side. -/
  ended : Bool := false
  heartbeat : Heartbeat := {}
  /-- When the current wait runs out. -/
  deadline : Nat

/-- What an event leads to: the session after it, the tree, and what was sent. -/
structure Reaction where
  session : Session
  tree : Tree
  sent : Bytes := []

namespace Reaction

/-- The same, after something else has been sent. -/
def after (sent : Bytes) (r : Reaction) : Reaction :=
  { r with sent := sent ++ r.sent }

end Reaction

namespace Session

/-- The stages that a session goes through. -/
inductive Stage where
  | connecting
  | authenticating
  | active
  | closed
  deriving DecidableEq, Repr

def Stage.name : Stage → String
  | connecting => "connecting"
  | authenticating => "authenticating"
  | active => "active"
  | closed => "closed"

def stage (s : Session) : Stage :=
  match s.phase with
  | .authenticating _ => .authenticating
  | .idle _ | .half _ | .busy _ _ => .active
  | .closed _ => .closed

/-- A session that waits for its token from `now` on. -/
def start (g : Gate) (now : Nat) : Session :=
  { gate := g, phase := .authenticating g.login, deadline := now + g.config.readTimeout.toNat }

def closedAt? (s : Session) : Option Nat :=
  match s.phase with
  | .closed time => some time
  | _ => none

/-- End the session. -/
def finish (s : Session) (now : Nat) : Session :=
  { s with phase := .closed now, unread := [] }

/-- Wait in some phase for at most `timeout`, unless nothing can arrive any more. -/
def await (s : Session) (now : Nat) (phase : Phase) (unread : Bytes) (timeout : UInt64) : Session :=
  if s.ended then s.finish now
  else { s with phase, unread, deadline := now + timeout.toNat }

/-- Serve what `input` holds, and wait for the rest. -/
def serveAll (s : Session) (e : Export) (now : Nat) (t : Tree) (input : Bytes) : Reaction :=
  match input with
  | [] => ⟨s.await now (.idle e) [] s.gate.config.readTimeout, t, []⟩
  | [a] => ⟨s.await now (.half e) [a] s.gate.config.ioTimeout, t, []⟩
  | a :: b :: rest =>
    match Command.ofWord? (UInt16.ofNat (Bytes.toNat [a, b])) with
    | none => s.serveAll e now t rest
    | some .stop => ⟨s.finish now, t, []⟩
    | some .heartbeat =>
      ({ s with heartbeat := s.heartbeat.beat }.serveAll e now t rest).after
        (Wire.ofCommand .heartbeat)
    | some command =>
      let p := (e.serve command).feed rest t
      match p.pending.outcome? with
      | some (.ok ()) => (s.serveAll e now p.state p.unread).after p.sent
      | some (.error _) => ⟨s.finish now, p.state, p.sent⟩
      | none =>
        ⟨s.await now (.busy e p.pending) p.unread s.gate.config.ioTimeout, p.state, p.sent⟩
termination_by input.length
decreasing_by
  · simp only [List.length_cons]; omega
  · simp only [List.length_cons]; omega
  · have := Dialogue.length_unread_feed (e.serve command) rest t
    simp only [List.length_cons]; omega

/-- Go on where the session waits, with all that has arrived. -/
def resume (s : Session) (now : Nat) (t : Tree) (input : Bytes) : Reaction :=
  match s.phase with
  | .closed _ => ⟨s, t, []⟩
  | .idle e | .half e => s.serveAll e now t input
  | .authenticating pending =>
    let p := pending.feed input t
    match p.pending.outcome? with
    | some (.ok (.ok e)) => (s.serveAll e now p.state p.unread).after p.sent
    | some _ => ⟨s.finish now, p.state, p.sent⟩
    | none =>
      if s.ended then ⟨s.finish now, p.state, p.sent⟩
      else ⟨{ s with phase := .authenticating p.pending, unread := p.unread }, p.state, p.sent⟩
  | .busy e pending =>
    let p := pending.feed input t
    match p.pending.outcome? with
    | some (.ok ()) => (s.serveAll e now p.state p.unread).after p.sent
    | some (.error _) => ⟨s.finish now, p.state, p.sent⟩
    | none =>
      if s.ended then ⟨s.finish now, p.state, p.sent⟩
      else ⟨{ s with phase := .busy e p.pending, unread := p.unread }, p.state, p.sent⟩

/-- Bytes arrive. -/
def arrive (s : Session) (now : Nat) (t : Tree) (bytes : Bytes) : Reaction :=
  if bytes.isEmpty then ⟨s, t, []⟩ else s.resume now t (s.unread ++ bytes)

/-- The client closes its side. -/
def hangUp (s : Session) (now : Nat) (t : Tree) : Reaction :=
  { s with ended := true }.resume now t s.unread

/-- The current wait has run out. -/
def runOut (s : Session) : Session :=
  match s.phase with
  | .closed _ => s
  | .idle _ =>
    let heartbeat := s.heartbeat.miss
    if heartbeat.expired then { s with heartbeat }.finish s.deadline
    else { s with heartbeat, deadline := s.deadline + s.gate.config.readTimeout.toNat }
  | _ => s.finish s.deadline

/-- How many waits can still run out before the session ends. -/
def waitsLeft (s : Session) : Nat :=
  s.heartbeat.threshold - s.heartbeat.missed + 1

/-- Let time pass up to `time`, in which nothing happens but that waits run out. -/
def pass (s : Session) (time : Nat) : Session :=
  go s.waitsLeft s
where
  go : Nat → Session → Session
    | 0, s => s
    | n + 1, s =>
      if s.closedAt?.isSome || time < s.deadline then s else go n s.runOut

/-- Let time pass until the session ends. -/
def toEnd (s : Session) : Session :=
  go s.waitsLeft s
where
  go : Nat → Session → Session
    | 0, s => s
    | n + 1, s => if s.closedAt?.isSome then s else go n s.runOut

end Session
end UnionFS
