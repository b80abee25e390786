import UnionFS.Client.Connection

/-!
# Routines

What a connection does, cut into the steps that others may come between.  The stream of a connection
lies behind a lock, together with the right to say whether there is one; only whether the connection
is connected or stopped can be seen without it.

* `alone_connect`, `alone_request`, `alone_beat`, `alone_stop`, `alone_keepalive`: a routine that
  nobody disturbs does what the connection does.
-/

namespace UnionFS.Client

/-- One step on a connection that others may use too. -/
inductive Action (L : Type) where
  | isConnected
  | isStopped
  | markStopped
  /-- Wait for the lock, and take it. -/
  | acquire
  | release
  /-- The stream behind the lock. -/
  | stored
  | store (line : Option L)
  | setConnected (connected : Bool)
  | dial (address : String)
  | send (line : L) (bytes : Bytes)
  | receive (line : L) (count : Nat)
  | shutdown (line : L)
  | drop (line : L)

namespace Action

variable {L : Type}

abbrev Answer : Action L → Type
  | isConnected | isStopped => Bool
  | stored => Option L
  | dial _ => Except DialFailure L
  | send _ _ | shutdown _ => Except WireError Unit
  | receive _ _ => Except WireError Bytes
  | markStopped | acquire | release | store _ | setConnected _ | drop _ => Unit

/-- What a step does to the connection and on the network.  The lock is not part of the
connection. -/
def perform {m : Type → Type} [Monad m] (net : Carrier m L) :
    (a : Action L) → StateT (Connection L) m a.Answer
  | isConnected => fun c => return (c.connected, c)
  | isStopped => fun c => return (c.stopped, c)
  | markStopped => fun c => return ((), { c with stopped := true })
  | acquire | release => fun c => return ((), c)
  | stored => fun c => return (c.line, c)
  | store line => fun c => return ((), { c with line })
  | setConnected connected => fun c => return ((), { c with connected })
  | dial address => fun c => (·, c) <$> net.dial address
  | send line bytes => fun c => (·, c) <$> net.send line bytes
  | receive line count => fun c => (·, c) <$> net.receive line count
  | shutdown line => fun c => (·, c) <$> net.shutdown line
  | drop line => fun c => (·, c) <$> net.drop line

end Action

/-- What one caller does on a connection, step by step. -/
abbrev Routine (L α : Type) := Plan (Action L) Action.Answer α

namespace Routine

variable {L α : Type}

def act (a : Action L) : Routine L a.Answer :=
  .question a

def isConnected : Routine L Bool := act .isConnected
def isStopped : Routine L Bool := act .isStopped
def markStopped : Routine L Unit := act .markStopped
def acquire : Routine L Unit := act .acquire
def release : Routine L Unit := act .release
def stored : Routine L (Option L) := act .stored
def store (line : Option L) : Routine L Unit := act (.store line)
def setConnected (connected : Bool) : Routine L Unit := act (.setConnected connected)

/-- The network as a routine uses it. -/
def carrier : Carrier (Routine L) L where
  dial address := act (.dial address)
  send line bytes := act (.send line bytes)
  receive line count := act (.receive line count)
  shutdown line := act (.shutdown line)
  drop line := act (.drop line)

/-- Open a stream and shake hands without the lock, then store the stream under it: unless the
connection has been stopped by then. -/
def connect (peer : Peer) : Routine L (Except ConnectionError Unit) := do
  if ← isStopped then return .error .stopped
  match ← carrier.dial peer.address with
  | .error .timeout => return .error .timeout
  | .error (.refused cause) => return .error (.connect peer.address cause)
  | .ok line =>
    match ← carrier.converse line (shakeHands peer.key) with
    | .error e =>
      carrier.drop line
      return .error (.ofWire e)
    | .ok (.rejected reason) =>
      let _ ← carrier.shutdown line
      carrier.drop line
      return .error (.handshake peer.hostname reason)
    | .ok .accepted =>
      acquire
      if ← isStopped then
        release
        let _ ← carrier.shutdown line
        carrier.drop line
        return .error .stopped
      match ← stored with
      | some old =>
        store (some line)
        carrier.drop old
      | none => store (some line)
      setConnected true
      release
      return .ok ()

/-- One exchange, by who holds the lock. -/
def transact (d : Dialogue Unit (Outcome α)) : Routine L (Outcome α) := do
  match ← stored with
  | none => return .error .notConnected
  | some line =>
    match ← carrier.converse line d with
    | .ok reply => return reply
    | .error e =>
      store none
      carrier.drop line
      setConnected false
      return .error e.code

/-- All exchanges of a request are made under the lock. -/
def request (config : ClientConfig) (r : Request) : Routine L (Outcome r.Answer) := do
  if config.maxPath.toNat < (Utf8.encode r.path).length then
    return .error .nameTooLong
  acquire
  let reply ← (split config.maxIo r).run fun q => transact (exchange config.limits q)
  release
  return reply

def beat : Routine L Bool := do
  acquire
  let reply ← transact (do return .ok (← heartbeat))
  release
  return reply.toOption.isSome

/-- From the first step on nobody opens a stream; the one there is goes as soon as the lock is
free. -/
def stop : Routine L Bool := do
  markStopped
  acquire
  setConnected false
  match ← stored with
  | none =>
    release
    return true
  | some line =>
    store none
    match ← carrier.send line (Wire.ofCommand .stop) with
    | .error _ =>
      carrier.drop line
      release
      return false
    | .ok () =>
      let closed ← carrier.shutdown line
      carrier.drop line
      release
      return closed.toOption.isSome

/-- One round of the keepalive loop, after its wait; true if the loop goes on. -/
def keepalive (peer : Peer) : Routine L Bool := do
  if ← isStopped then return false
  if ← isConnected then
    let _ ← beat
    return true
  let _ ← connect peer
  return true

/-! ## Routines that nobody disturbs -/

variable {m : Type → Type} [Monad m]

/-- Run a routine with the connection to itself. -/
def alone (net : Carrier m L) (r : Routine L α) : StateT (Connection L) m α :=
  r.run (Action.perform net)

variable [LawfulMonad m] (net : Carrier m L)

@[simp] theorem alone_bind {β : Type} (r : Routine L α) (k : α → Routine L β) (c : Connection L) :
    (r >>= k).alone net c = r.alone net c >>= fun (a, c) => (k a).alone net c :=
  congrFun (Plan.run_bind (m := StateT (Connection L) m) _ r k) c

omit [LawfulMonad m] in
@[simp] theorem alone_pure (a : α) (c : Connection L) :
    (pure a : Routine L α).alone net c = pure (a, c) := rfl

@[simp] theorem alone_map {β : Type} (f : α → β) (r : Routine L α) (c : Connection L) :
    (f <$> r).alone net c = (fun (a, c) => (f a, c)) <$> r.alone net c := by
  rw [← bind_pure_comp, alone_bind]
  simp

theorem alone_act (a : Action L) (c : Connection L) : (act a).alone net c = a.perform net c :=
  congrFun (bind_pure (m := StateT (Connection L) m) (a.perform net)) c

@[simp] theorem alone_isStopped (c : Connection L) :
    (isStopped : Routine L _).alone net c = pure (c.stopped, c) := alone_act ..

@[simp] theorem alone_isConnected (c : Connection L) :
    (isConnected : Routine L _).alone net c = pure (c.connected, c) := alone_act ..

@[simp] theorem alone_markStopped (c : Connection L) :
    (markStopped : Routine L _).alone net c = pure ((), { c with stopped := true }) :=
  alone_act ..

@[simp] theorem alone_acquire (c : Connection L) :
    (acquire : Routine L _).alone net c = pure ((), c) := alone_act ..

@[simp] theorem alone_release (c : Connection L) :
    (release : Routine L _).alone net c = pure ((), c) := alone_act ..

@[simp] theorem alone_stored (c : Connection L) :
    (stored : Routine L _).alone net c = pure (c.line, c) := alone_act ..

@[simp] theorem alone_store (line : Option L) (c : Connection L) :
    (store line).alone net c = pure ((), { c with line }) := alone_act ..

@[simp] theorem alone_setConnected (connected : Bool) (c : Connection L) :
    (setConnected connected : Routine L _).alone net c = pure ((), { c with connected }) :=
  alone_act ..

@[simp] theorem alone_dial (address : String) (c : Connection L) :
    (carrier.dial address).alone net c = (·, c) <$> net.dial address := alone_act ..

@[simp] theorem alone_send (line : L) (bytes : Bytes) (c : Connection L) :
    (carrier.send line bytes).alone net c = (·, c) <$> net.send line bytes := alone_act ..

@[simp] theorem alone_receive (line : L) (count : Nat) (c : Connection L) :
    (carrier.receive line count).alone net c = (·, c) <$> net.receive line count := alone_act ..

@[simp] theorem alone_shutdown (line : L) (c : Connection L) :
    (carrier.shutdown line).alone net c = (·, c) <$> net.shutdown line := alone_act ..

@[simp] theorem alone_drop (line : L) (c : Connection L) :
    (carrier.drop line).alone net c = (·, c) <$> net.drop line := alone_act ..

/-- A dialogue leaves the connection itself as it is. -/
@[simp] theorem alone_converse (line : L) (d : Dialogue Unit α) (c : Connection L) :
    (carrier.converse line d).alone net c = (·, c) <$> net.converse line d := by
  induction d with
  | done a => simp [Carrier.converse, alone_pure]
  | fail e => simp [Carrier.converse, alone_pure]
  | send b d ih =>
    simp only [Carrier.converse, alone_bind, alone_send, bind_map_left, map_bind]
    exact bind_congr fun r => by cases r <;> simp [ih, alone_pure]
  | receive n d ih =>
    simp only [Carrier.converse, alone_bind, alone_receive, bind_map_left, map_bind]
    exact bind_congr fun r => by cases r <;> simp [ih, alone_pure]
  | consult d ih => exact ih ()
  | commit s d ih => exact ih

/-- A plan of routines, run as one. -/
@[simp] theorem alone_run {Call : Type} {Answer : Call → Type} (p : Plan Call Answer α)
    (f : (q : Call) → Routine L (Answer q)) :
    (p.run f).alone net = p.run fun q => (f q).alone net := by
  induction p with
  | done a => rfl
  | ask q next ih =>
    funext c
    simp only [Plan.run, alone_bind, ih]
    rfl

@[simp] theorem alone_transact (d : Dialogue Unit (Outcome α)) (c : Connection L) :
    (transact d).alone net c = c.transact net d := by
  rw [transact, Connection.transact, alone_bind, alone_stored, pure_bind]
  cases c.line with
  | none => rfl
  | some line =>
    simp only [alone_bind, alone_converse, bind_map_left]
    exact bind_congr fun r => by cases r <;> simp [Connection.lost]

theorem alone_connect (c : Connection L) :
    (connect c.peer).alone net c = c.connect net := by
  rw [connect, Connection.connect, alone_bind, alone_isStopped, pure_bind]
  cases hs : c.stopped with
  | true => simp
  | false =>
    simp only [Bool.false_eq_true, if_false, alone_bind, alone_dial, bind_map_left]
    refine bind_congr fun r => ?_
    cases r with
    | error failure => cases failure <;> simp
    | ok line =>
      simp only [alone_bind, alone_converse, bind_map_left]
      refine bind_congr fun r => ?_
      cases r with
      | error e => simp
      | ok answer =>
        cases answer with
        | accepted => cases hl : c.line <;> simp [hs, hl, Connection.gained]
        | rejected text => simp

theorem alone_request (r : Request) (c : Connection L) :
    (request c.config r).alone net c = c.request net r := by
  unfold request Connection.request
  split
  · rfl
  · have h (q : Request) : (transact (exchange c.config.limits q)).alone net =
        fun now => now.transact net (exchange c.config.limits q) :=
      funext fun now => alone_transact net _ now
    simp [h]

theorem alone_beat (c : Connection L) : beat.alone net c = c.beat net := by
  simp [beat, Connection.beat]

theorem alone_stop (c : Connection L) : stop.alone net c = c.stop net := by
  unfold stop Connection.stop
  cases hl : c.line with
  | none => simp [hl, Connection.lost]
  | some line =>
    simp [hl]
    exact bind_congr fun r => by cases r <;> simp [Connection.lost]

/-- A round ends the loop exactly when the connection is stopped. -/
theorem alone_keepalive (c : Connection L) :
    (fun (goesOn, c) => if goesOn then some c else none) <$> (keepalive c.peer).alone net c =
      c.keepalive net := by
  unfold keepalive Connection.keepalive
  cases hs : c.stopped with
  | true => simp [hs]
  | false =>
    cases hc : c.connected <;> simp [hs, hc, alone_beat, alone_connect]

end Routine
end UnionFS.Client
