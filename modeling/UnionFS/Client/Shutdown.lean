import UnionFS.Client.Shared

/-!
# Shutting down a fleet

The connections of a fleet share one network, those that it began with have their keepalive loops,
and anybody may use them.  A shutdown stops every connection that is registered, and then waits for
the loops.  There may be several shutdowns at once: the loops are left to the first that comes to
wait for them.  More connections can be registered while nobody shuts the fleet down.
-/

namespace UnionFS.Client

/-- Who uses a connection of a fleet. -/
inductive User (τ ι : Type) where
  | loop
  /-- A shutdown stops the connection. -/
  | shutdown (call : τ)
  | other (user : ι)
  deriving DecidableEq

/-- How far a shutdown is.  It is clean as long as every connection that it has stopped has closed
without an error. -/
inductive Shutdown where
  | idle
  | stopping (clean : Bool)
  /-- All connections are stopped; the loops are waited for, unless somebody does so already. -/
  | joining (clean loops : Bool)
  | returned (clean : Bool)
  deriving DecidableEq, Repr

/-- A connection has been stopped for a shutdown. -/
def Shutdown.note (clean : Bool) : Shutdown → Shutdown
  | stopping cleanSoFar => stopping (cleanSoFar && clean)
  | idle => idle
  | joining cleanSoFar loops => joining cleanSoFar loops
  | returned cleanSoFar => returned cleanSoFar

/-- Loops are begun only with the fleet, and stops for a shutdown only with that. -/
def Event.Ordinary {τ ι L : Type} : Event (User τ ι) L → Prop
  | .begins (.other _) _ | .acts .. | .ends .. => True
  | .begins .loop _ | .begins (.shutdown _) _ => False

instance {τ ι L : Type} : (e : Event (User τ ι) L) → Decidable e.Ordinary
  | .begins (.other _) _ | .acts .. | .ends .. => .isTrue trivial
  | .begins .loop _ | .begins (.shutdown _) _ => .isFalse id

/-- Neither a loop nor a stop for a shutdown begins then. -/
theorem Event.Ordinary.ne_begins {τ ι L : Type} {e : Event (User τ ι) L} {i : User τ ι}
    (h : e.Ordinary) (hi : i = .loop ∨ ∃ call, i = .shutdown call) (o : Operation) :
    e ≠ .begins i o := by
  rintro rfl
  rcases hi with rfl | ⟨call, rfl⟩ <;> exact h

namespace Shared

variable {ι L σ : Type}

/-- The connection and its users on a network. -/
def on (s : Shared ι L Unit) (network : σ) : Shared ι L σ :=
  { connection := s.connection, network, holder := s.holder, callers := s.callers }

/-- The connection and its users without the network. -/
def off (s : Shared ι L σ) : Shared ι L Unit :=
  { connection := s.connection, network := (), holder := s.holder, callers := s.callers }

end Shared

/-- Connections `κ` with users `ι`, and the shutdowns `τ` that may be called for. -/
structure SharedFleet (κ τ ι L σ : Type) where
  network : σ
  members : κ → Shared (User τ ι) L Unit
  /-- The connection is one of those that a shutdown stops. -/
  registered : κ → Bool
  calls : τ → Shutdown := fun _ => .idle
  /-- Nobody waits for the loops yet. -/
  loops : Bool := true

namespace SharedFleet

variable {κ τ ι L σ : Type}

/-- No connection has a stream yet, and the keepalive loops of those that are registered have
begun. -/
def start (peers : κ → Peer) (config : ClientConfig) (registered : κ → Bool) (network : σ) :
    SharedFleet κ τ ι L σ where
  network
  members k :=
    { connection := { peer := peers k, config }
      network := ()
      callers := fun
        | .loop => if registered k then .busy .keepalive (.keepalive (peers k)) else .idle
        | .shutdown _ | .other _ => .idle }
  registered

variable [DecidableEq τ]

def setCall (f : SharedFleet κ τ ι L σ) (call : τ) (progress : Shutdown) : SharedFleet κ τ ι L σ :=
  { f with calls := fun other => if other = call then progress else f.calls other }

/-- What an event at a connection means to the shutdowns. -/
def heed (f : SharedFleet κ τ ι L σ) : Event (User τ ι) L → SharedFleet κ τ ι L σ
  | .ends (.shutdown call) .stop clean => f.setCall call ((f.calls call).note clean)
  | _ => f

section
variable {f : SharedFleet κ τ ι L σ} {call other : τ} {progress : Shutdown}

theorem setCall_self : (f.setCall call progress).calls call = progress :=
  if_pos rfl

theorem setCall_of_ne (h : other ≠ call) : (f.setCall call progress).calls other = f.calls other :=
  if_neg h

theorem setCall_cases {P : τ → Shutdown → Prop} (hself : P call progress)
    (hothers : ∀ other, other ≠ call → P other (f.calls other)) (other : τ) :
    P other ((f.setCall call progress).calls other) := by
  by_cases h : other = call
  · rw [h, setCall_self]
    exact hself
  · rw [setCall_of_ne h]
    exact hothers other h

/-- An event at a connection can only tell a shutdown whether it is clean. -/
theorem calls_heed (f : SharedFleet κ τ ι L σ) (e : Event (User τ ι) L) (call : τ) :
    (f.heed e).calls call = f.calls call
      ∨ ∃ clean clean', f.calls call = .stopping clean
        ∧ (f.heed e).calls call = .stopping clean' := by
  unfold heed
  split
  · next other clean =>
    by_cases h : call = other
    · subst h
      rw [setCall_self]
      cases f.calls call with
      | stopping cleanSoFar => exact .inr ⟨_, _, rfl, rfl⟩
      | idle | joining | returned => exact .inl rfl
    · exact .inl (setCall_of_ne h)
  · exact .inl rfl

@[simp] theorem members_heed (e : Event (User τ ι) L) : (f.heed e).members = f.members := by
  unfold heed
  split <;> rfl

@[simp] theorem loops_heed (e : Event (User τ ι) L) : (f.heed e).loops = f.loops := by
  unfold heed
  split <;> rfl

@[simp] theorem registered_heed (e : Event (User τ ι) L) :
    (f.heed e).registered = f.registered := by
  unfold heed
  split <;> rfl

end

variable [DecidableEq κ] [DecidableEq ι]

def setMember (f : SharedFleet κ τ ι L σ) (k : κ) (s : Shared (User τ ι) L σ) :
    SharedFleet κ τ ι L σ :=
  { f with network := s.network, members := fun j => if j = k then s.off else f.members j }

/-- The stops of a shutdown begin, one at each connection that is registered. -/
def stopAll (f : SharedFleet κ τ ι L σ) (call : τ) : SharedFleet κ τ ι L σ :=
  { f with members := fun k =>
      if f.registered k then (f.members k).start (.shutdown call) .stop else f.members k }

def register (f : SharedFleet κ τ ι L σ) (k : κ) : SharedFleet κ τ ι L σ :=
  { f with registered := fun j => j = k || f.registered j }

/-- Nobody is about to shut the fleet down. -/
def Unused (f : SharedFleet κ τ ι L σ) : Prop :=
  ∀ call, f.calls call = .idle ∨ ∃ clean, f.calls call = .returned clean

/-- The server's name is that of no connection registered. -/
def Unnamed (f : SharedFleet κ τ ι L σ) (host : String) : Prop :=
  ∀ k, f.registered k = true → (f.members k).connection.peer.hostname ≠ host

inductive Step (net : Carrier (StateM σ) L) :
    SharedFleet κ τ ι L σ → SharedFleet κ τ ι L σ → Prop where
  /-- Somebody takes a step on a connection. -/
  | uses {f : SharedFleet κ τ ι L σ} {k : κ} {e : Event (User τ ι) L}
    {s : Shared (User τ ι) L σ} :
    e.Ordinary → Shared.Step net ((f.members k).on f.network) e s →
    Step net f ((f.setMember k s).heed e)
  | begins {f : SharedFleet κ τ ι L σ} {call : τ} :
    f.calls call = .idle → Step net f ((f.stopAll call).setCall call (.stopping true))
  /-- All stops have returned. -/
  | joins {f : SharedFleet κ τ ι L σ} {call : τ} {clean : Bool} :
    f.calls call = .stopping clean → (∀ k, (f.members k).callers (.shutdown call) = .idle) →
    Step net f ({ f with loops := false }.setCall call (.joining clean f.loops))
  | returns {f : SharedFleet κ τ ι L σ} {call : τ} {clean loops : Bool} :
    f.calls call = .joining clean loops →
    (loops = true → ∀ k, (f.members k).callers .loop = .idle) →
    Step net f (f.setCall call (.returned clean))
  /-- One connection more.  It has no loop of the fleet's, and may have a stream. -/
  | registers {f : SharedFleet κ τ ι L σ} {k : κ} :
    f.Unused → f.Unnamed (f.members k).connection.peer.hostname → Step net f (f.register k)

/-- The step that is chosen at a connection, if it can be taken. -/
def choose (f : SharedFleet κ τ ι L σ) (net : Carrier (StateM σ) L) (k : κ)
    (choice : Shared.Choice (User τ ι)) : SharedFleet κ τ ι L σ :=
  match ((f.members k).on f.network).choose net choice with
  | none => f
  | some (e, s) => if e.Ordinary then (f.setMember k s).heed e else f

/-- The steps that are chosen at a connection, as far as they can be taken. -/
def follow (f : SharedFleet κ τ ι L σ) (net : Carrier (StateM σ) L) (k : κ)
    (choices : List (Shared.Choice (User τ ι))) : SharedFleet κ τ ι L σ :=
  choices.foldl (fun f choice => f.choose net k choice) f

/-- One state of a fleet comes after another. -/
inductive Steps (net : Carrier (StateM σ) L) :
    SharedFleet κ τ ι L σ → SharedFleet κ τ ι L σ → Prop where
  | refl (f : SharedFleet κ τ ι L σ) : Steps net f f
  | tail {f f' f'' : SharedFleet κ τ ι L σ} : Steps net f f' → Step net f' f'' → Steps net f f''

/-- Whatever is chosen, what is followed is a run. -/
theorem Steps.follow {net : Carrier (StateM σ) L} {start f : SharedFleet κ τ ι L σ}
    (h : Steps net start f) (k : κ) (choices : List (Shared.Choice (User τ ι))) :
    Steps net start (f.follow net k choices) := by
  induction choices generalizing f with
  | nil => exact h
  | cons choice choices ih =>
    refine ih ?_
    show Steps net start (f.choose net k choice)
    unfold choose
    split
    · exact h
    · next e s hchosen =>
      split
      · next hordinary =>
        exact h.tail (.uses hordinary (Shared.step_iff.mpr ⟨choice, hchosen⟩))
      · exact h

end SharedFleet
end UnionFS.Client
