import Mathlib
import UnionFS.Client.Shutdown
import UnionFS.Proofs.Client.Deeds
import UnionFS.Proofs.Client.InStep
import UnionFS.Proofs.Client.Stopping

/-!
# Stop is final

Of one connection with any users (`Stoppable`): while nobody has the lock the flag says whether
there is a stream, a connect that fails has left the stream alone, and once a stop has returned
there is no stream any more and the keepalive loop ends when it looks next.

Of a fleet (`Closable`): once a shutdown has returned, no connection that was registered when it was
called has a stream any more, and no keepalive loop is left, unless another shutdown has come first
to wait for the loops and waits still.  What carries this is how far each shutdown is at each
connection (`Reached`).  A connection that is registered later may well have a stream, and of two
shutdowns at once the second to wait leaves the loops to the first (`not_always_shut`).
-/

namespace UnionFS.Client

open Connection Routine Shared

/-- What can be said of a connection that is used and stopped by anybody at any time. -/
structure Stoppable {ι L σ : Type} [DecidableEq ι] (net : Carrier (StateM σ) L)
    (start : Shared ι L σ) : Prop where
  consistent : ∀ es s, Steps net start es s → s.holder = none →
    s.connection.connected = s.connection.line.isSome
  /-- A connect that has failed. -/
  failed : ∀ es s i cause s', Steps net start es s →
    Shared.Step net s (.ends i .connect (.error cause)) s' → Aloof net (deeds i es)
  /-- A round of a keepalive loop, which may have tried to connect. -/
  round : ∀ es s i goesOn s', Steps net start es s →
    Shared.Step net s (.ends i .keepalive goesOn) s' →
    Lap net start.connection.peer (deeds i es) goesOn
  stopped : ∀ es s i clean, Steps net start es s → .ends i .stop clean ∈ es →
    s.connection.line = none ∧ s.connection.connected = false
  /-- A keepalive loop that is about to look whether the connection is stopped. -/
  ended : ∀ es s i clean, Steps net start es s → .ends i .stop clean ∈ es →
    ∀ j es' s', s.callers j = .busy .keepalive (.keepalive start.connection.peer) →
      Steps net s es' s' → (own j es').take 2 <+: lastRound j

namespace SharedFleet

/-- What can be said of a fleet that is used and shut down by anybody at any time. -/
structure Closable {κ τ ι L σ : Type} [DecidableEq κ] [DecidableEq τ] [DecidableEq ι]
    (net : Carrier (StateM σ) L) (start : SharedFleet κ τ ι L σ) : Prop where
  /-- Once a shutdown has returned, of the connections that were registered before it began. -/
  closed : ∀ f f' call clean k, Steps net start f → f.calls call = .idle → f.registered k = true →
    Steps net f f' → f'.calls call = .returned clean →
    (f'.members k).connection.line = none ∧ (f'.members k).connection.connected = false
  /-- Nobody has come first to wait for the loops and waits still. -/
  ended : ∀ f call clean, Steps net start f → f.calls call = .returned clean →
    (∀ other cleanSoFar, f.calls other ≠ .joining cleanSoFar true) →
    ∀ k, (f.members k).callers .loop = .idle

end SharedFleet

/-! ## One connection -/

namespace Shared

variable {ι L σ : Type} [DecidableEq ι] {net : Carrier (StateM σ) L}

theorem stoppable (net : Carrier (StateM σ) L) (peer : Peer) (config : ClientConfig) (n : σ) :
    Stoppable net ({ connection := { peer, config }, network := n } : Shared ι L σ) := by
  have hstart : Orderly ({ connection := { peer, config }, network := n } : Shared ι L σ) :=
    orderly_of_idle (show Consistent { peer, config } from rfl) n
  refine ⟨fun es s run hfree => (orderly_steps hstart run).sound.free hfree, ?_, ?_, ?_, ?_⟩
  · intro es s i cause s' run step
    cases step with
    | ends hi => exact (fails_connect (leads_steps rfl run _ _ hi)).aloof net
  · intro es s i goesOn s' run step
    cases step with
    | ends hi => exact lap_keepalive (leads_steps rfl run _ _ hi) net
  · intro es s i clean run hstop
    have hshut := (shut_of_stopped hstart run hstop).connection_shut
    exact ⟨hshut.line, hshut.connected⟩
  · intro es s i clean run hstop j es' s' hj run'
    have hshut := shut_of_stopped hstart run hstop
    exact (ending_steps (orderly_steps hstart run) hshut hj run').1.take_two

end Shared

/-! ## Fleets -/

namespace SharedFleet

variable {κ τ ι L σ : Type} {I : Connection L → Prop}

/-- How far a shutdown is at one connection. -/
inductive Reached (call : τ) (s : Shared (User τ ι) L Unit) : Shutdown → Prop where
  | idle : s.callers (.shutdown call) = .idle → Reached call s .idle
  | stopping {clean : Bool} {rest : Routine L Bool} :
    s.callers (.shutdown call) = .busy .stop rest → Reached call s (.stopping clean)
  | stopped {clean : Bool} :
    s.callers (.shutdown call) = .idle → Sound Shut s → Reached call s (.stopping clean)
  | joining {clean loops : Bool} : Sound Shut s → Reached call s (.joining clean loops)
  | returned {clean : Bool} : Sound Shut s → Reached call s (.returned clean)

theorem Reached.noted {call : τ} {s : Shared (User τ ι) L Unit} {clean clean' : Bool}
    (h : Reached call s (.stopping clean)) : Reached call s (.stopping clean') := by
  cases h with
  | stopping hbusy => exact .stopping hbusy
  | stopped hidle hshut => exact .stopped hidle hshut

/-- The network is of no matter to what the users keep to. -/
theorem sound_on {s : Shared (User τ ι) L Unit} {n : σ} : Sound I (s.on n) ↔ Sound I s :=
  ⟨fun h => ⟨h.free, h.held, h.outside⟩, fun h => ⟨h.free, h.held, h.outside⟩⟩

theorem orderly_on {s : Shared (User τ ι) L Unit} {n : σ} : Orderly (s.on n) ↔ Orderly s := by
  refine ⟨fun h => ⟨sound_on.mp h.sound, fun i rest hi => ?_⟩,
    fun h => ⟨sound_on.mpr h.sound, fun i rest hi => ?_⟩⟩
  · cases h.stage i rest hi with
    | begun => exact .begun
    | marked hstopped => exact .marked hstopped
    | inside hholder => exact .inside hholder
    | shut hshut => exact .shut (sound_on.mp hshut)
  · cases h.stage i rest hi with
    | begun => exact .begun
    | marked hstopped => exact .marked hstopped
    | inside hholder => exact .inside hholder
    | shut hshut => exact .shut (sound_on.mpr hshut)

/-- All connections of the fleet are in order. -/
structure Ordered (f : SharedFleet κ τ ι L σ) : Prop where
  members : ∀ k, Orderly (f.members k)
  fresh : ∀ call, f.calls call = .idle → ∀ k, (f.members k).callers (.shutdown call) = .idle
  /-- Whoever has stopped all has looked whether the loops are still to be waited for. -/
  looked : ∀ call clean,
    (∃ loops, f.calls call = .joining clean loops) ∨ f.calls call = .returned clean →
      f.loops = false
  /-- Whoever has come first waits for the loops until there are none. -/
  loops : f.loops = false →
    (∃ call clean, f.calls call = .joining clean true) ∨ ∀ k, (f.members k).callers .loop = .idle

/-- The connection is registered, and the shutdown has come there as far as it says. -/
structure Covers (call : τ) (k : κ) (f : SharedFleet κ τ ι L σ) : Prop where
  registered : f.registered k = true
  reached : Reached call (f.members k) (f.calls call)

theorem ordered_start (peers : κ → Peer) (config : ClientConfig) (registered : κ → Bool) (n : σ) :
    Ordered (start peers config registered n : SharedFleet κ τ ι L σ) := by
  refine ⟨fun k => ⟨⟨fun _ => rfl, nofun, ?_⟩, ?_⟩, fun call _ k => rfl, ?_, nofun⟩
  · intro i o rest hi _
    cases i with
    | loop =>
      simp only [start] at hi
      split at hi
      · cases hi
        exact locks_routine .keepalive (peers k) config
      · cases hi
    | shutdown | other => cases hi
  · intro i rest hi
    cases i with
    | loop =>
      simp only [start] at hi
      split at hi <;> cases hi
    | shutdown | other => cases hi
  · intro call clean hcall
    rcases hcall with ⟨loops, hcall⟩ | hcall <;> cases hcall

variable {f f' : SharedFleet κ τ ι L σ} {call other : τ} {clean : Bool} {j k : κ}

/-- A shutdown begins with a connection that it has nothing under way at. -/
theorem Ordered.covers (h : Ordered f) (hcall : f.calls call = .idle)
    (hk : f.registered k = true) : Covers call k f := by
  refine ⟨hk, ?_⟩
  rw [hcall]
  exact .idle (h.fresh call hcall k)

variable [DecidableEq τ]

/-- Who waits for the loops goes on with that whatever another shutdown does. -/
theorem joining_setCall {progress : Shutdown} (hcall : ∀ clean, f.calls call ≠ .joining clean true)
    (h : ∃ other clean, f.calls other = .joining clean true) :
    ∃ other clean, (f.setCall call progress).calls other = .joining clean true := by
  obtain ⟨other, clean, hother⟩ := h
  refine ⟨other, clean, ?_⟩
  rw [setCall_of_ne, hother]
  rintro rfl
  exact hcall clean hother

/-- A shutdown gets further that has begun. -/
theorem Ordered.fresh_setCall {progress : Shutdown} (h : Ordered f) (hprogress : progress ≠ .idle)
    (hother : (f.setCall call progress).calls other = .idle) (k : κ) :
    (f.members k).callers (.shutdown other) = .idle := by
  refine setCall_cases (P := fun other p => p = .idle →
    (f.members k).callers (.shutdown other) = .idle) (fun h => absurd h hprogress)
    (fun other _ hidle => h.fresh other hidle k) other hother

/-- All connections have been stopped for a shutdown. -/
theorem Ordered.joins (h : Ordered f) (hcall : f.calls call = .stopping clean) :
    Ordered ({ f with loops := false }.setCall call (.joining clean f.loops)) := by
  refine ⟨h.members, fun other => h.fresh_setCall nofun, fun _ _ _ => rfl, fun _ => ?_⟩
  cases hloops : f.loops with
  | true => exact .inl ⟨call, clean, setCall_self⟩
  | false =>
    -- Another shutdown has come first.
    refine (h.loops hloops).imp_left (joining_setCall ?_)
    rw [hcall]
    nofun

theorem Covers.joins (h : Covers other k f) (hcall : f.calls call = .stopping clean)
    (hidle : ∀ k, (f.members k).callers (.shutdown call) = .idle) :
    Covers other k ({ f with loops := false }.setCall call (.joining clean f.loops)) := by
  refine ⟨h.registered, ?_⟩
  by_cases hother : other = call
  · subst hother
    rw [setCall_self]
    have hreached := h.reached
    rw [hcall] at hreached
    cases hreached with
    | stopped _ hshut => exact .joining hshut
    | stopping hbusy =>
      rw [hidle k] at hbusy
      cases hbusy
  · rw [setCall_of_ne hother]
    exact h.reached

/-- A shutdown returns. -/
theorem Ordered.returns {loops : Bool} (h : Ordered f) (hcall : f.calls call = .joining clean loops)
    (hidle : loops = true → ∀ k, (f.members k).callers .loop = .idle) :
    Ordered (f.setCall call (.returned clean)) := by
  have hlooked : f.loops = false := h.looked call clean (.inl ⟨loops, hcall⟩)
  refine ⟨h.members, fun other => h.fresh_setCall nofun, fun _ _ _ => hlooked, fun _ => ?_⟩
  cases loops with
  | true => exact .inr (hidle rfl)
  | false =>
    refine (h.loops hlooked).imp_left (joining_setCall ?_)
    rw [hcall]
    nofun

theorem Covers.returns {loops : Bool} (h : Covers other k f)
    (hcall : f.calls call = .joining clean loops) :
    Covers other k (f.setCall call (.returned clean)) := by
  refine ⟨h.registered, ?_⟩
  by_cases hother : other = call
  · subst hother
    rw [setCall_self]
    have hreached := h.reached
    rw [hcall] at hreached
    cases hreached with
    | joining hshut => exact .returned hshut
  · rw [setCall_of_ne hother]
    exact h.reached

variable {net : Carrier (StateM σ) L} {n : σ} {s : Shared (User τ ι) L Unit}
  {s' : Shared (User τ ι) L σ} {e : Event (User τ ι) L}

/-- What is so of one connection after a step stays so if it was so of all. -/
theorem members_setMember [DecidableEq κ] {P : Shared (User τ ι) L Unit → Prop} (hold : P (f.members j))
    (hnew : j = k → P s'.off) : P (((f.setMember k s').heed e).members j) := by
  rw [members_heed]
  by_cases hj : j = k
  · rw [show (f.setMember k s').members j = s'.off from if_pos hj]
    exact hnew hj
  · rw [show (f.setMember k s').members j = f.members j from if_neg hj]
    exact hold

variable [DecidableEq ι]

/-- Who does nothing goes on doing nothing until it begins something. -/
theorem idle_step {i : User τ ι} (hi : ∀ o, e ≠ .begins i o)
    (step : Shared.Step net (s.on n) e s') (hidle : s.callers i = .idle) :
    s'.callers i = .idle := by
  by_cases he : e.caller = i
  · obtain ⟨o, ho⟩ := step.of_idle he hidle
    exact absurd ho (hi o)
  · rw [step.callers_of_ne (Ne.symm he)]
    exact hidle

/-- A step at a connection takes no shutdown back. -/
theorem Reached.step {call : τ} {p : Shutdown} (h : Reached call s p) (hs : Orderly s)
    (he : ∀ o, e ≠ .begins (.shutdown call) o) (step : Shared.Step net (s.on n) e s') :
    Reached call s'.off p := by
  have hs' : Orderly (s.on n) := orderly_on.mpr hs
  have hshut (hshut : Sound Shut s) : Sound Shut s'.off :=
    sound_on.mp (hs'.sound_step (sound_on.mpr hshut) lasting_shut step)
  have hstays (hidle : s.callers (.shutdown call) = .idle) :
      s'.callers (.shutdown call) = .idle := idle_step he step hidle
  cases h with
  | idle hidle => exact .idle (hstays hidle)
  | stopped hidle hclosed => exact .stopped (hstays hidle) (hshut hclosed)
  | joining hclosed => exact .joining (hshut hclosed)
  | returned hclosed => exact .returned (hshut hclosed)
  | @stopping clean rest hbusy =>
    by_cases he : e.caller = .shutdown call
    · cases rest with
      | ask a next =>
        obtain ⟨-, rfl⟩ := step.of_ask he hbusy
        exact .stopping callers_act
      | done answer =>
        obtain ⟨rfl, rfl⟩ := step.of_done he hbusy
        exact .stopped (if_pos rfl) (sound_on.mp (hs'.shut_of_ends step))
    · exact .stopping ((step.callers_of_ne (Ne.symm he)).trans hbusy)

/-- The stop of a shutdown begins with a step at the connection. -/
theorem Ordered.step_stopAll (h : Ordered f) (net : Carrier (StateM σ) L)
    (hcall : f.calls call = .idle) (k : κ) :
    Shared.Step net ((f.members k).on f.network) (.begins (.shutdown call) .stop)
      (((f.members k).on f.network).start (.shutdown call) .stop) :=
  .begins .stop (h.fresh call hcall k)

theorem members_stopAll (f : SharedFleet κ τ ι L σ) (call : τ) (k : κ) :
    (f.stopAll call).members k =
      if f.registered k then (f.members k).start (.shutdown call) .stop else f.members k := rfl

/-- What no step at a connection takes back is left where a shutdown begins. -/
theorem Ordered.stopAll {P : Shared (User τ ι) L Unit → Prop} (h : Ordered f)
    (net : Carrier (StateM σ) L) (hcall : f.calls call = .idle)
    (hstep : ∀ s' : Shared (User τ ι) L σ, Shared.Step net ((f.members k).on f.network)
      (.begins (.shutdown call) .stop) s' → P s'.off) (hold : P (f.members k)) :
    P ((f.stopAll call).members k) := by
  rw [members_stopAll]
  split
  · exact hstep _ (h.step_stopAll net hcall k)
  · exact hold

/-- A shutdown begins. -/
theorem Ordered.begins (h : Ordered f) (net : Carrier (StateM σ) L) (hcall : f.calls call = .idle) :
    Ordered ((f.stopAll call).setCall call (.stopping true)) := by
  refine ⟨fun k => ?_, fun other hother k => ?_, fun other clean hother => ?_, fun hloops => ?_⟩
  · refine h.stopAll (P := Orderly) net hcall (fun s' step => ?_) (h.members k)
    exact orderly_on.mp ((orderly_on.mpr (h.members k)).step step)
  · have hne : other ≠ call := by
      rintro rfl
      rw [setCall_self] at hother
      cases hother
    rw [setCall_of_ne hne] at hother
    have hidle := h.fresh other hother k
    refine h.stopAll (P := fun s => s.callers (.shutdown other) = .idle) net hcall
      (fun s' step => ?_) hidle
    have hbegun (o : Operation) :
        (.begins (.shutdown call) .stop : Event (User τ ι) L) ≠ .begins (.shutdown other) o := by
      rintro ⟨⟩
      exact hne rfl
    have hstays := idle_step hbegun step hidle
    exact hstays
  · refine setCall_cases (f := f.stopAll call) (P := fun _ p =>
      (∃ loops, p = .joining clean loops) ∨ p = .returned clean → f.loops = false)
      (fun hstopping => ?_) (fun other _ => h.looked other clean) other hother
    rcases hstopping with ⟨loops, hstopping⟩ | hstopping <;> cases hstopping
  · rcases h.loops hloops with hwaits | hidle
    · refine .inl (joining_setCall (f := f.stopAll call) ?_ hwaits)
      rw [show (f.stopAll call).calls call = .idle from hcall]
      nofun
    · refine .inr fun k => ?_
      refine h.stopAll (P := fun s => s.callers .loop = .idle) net hcall (fun s' step => ?_)
        (hidle k)
      have hbegun (o : Operation) :
          (.begins (.shutdown call) .stop : Event (User τ ι) L) ≠ .begins .loop o := by
        rintro ⟨⟩
      have hstays := idle_step hbegun step (hidle k)
      exact hstays

theorem Covers.begins (h : Covers other k f) (hf : Ordered f) (net : Carrier (StateM σ) L)
    (hcall : f.calls call = .idle) :
    Covers other k ((f.stopAll call).setCall call (.stopping true)) := by
  refine ⟨h.registered, ?_⟩
  by_cases hother : other = call
  · subst hother
    rw [setCall_self]
    show Reached other ((f.stopAll other).members k) _
    rw [members_stopAll, if_pos h.registered]
    exact .stopping callers_start
  · rw [setCall_of_ne hother]
    refine hf.stopAll (P := fun s => Reached other s (f.calls other)) net hcall (fun s' step => ?_)
      h.reached
    refine h.reached.step (hf.members k) (fun o he => ?_) step
    cases he
    exact hother rfl

variable [DecidableEq κ]

/-- Somebody takes a step on a connection. -/
theorem Ordered.uses (h : Ordered f) (hordinary : e.Ordinary)
    (step : Shared.Step net ((f.members k).on f.network) e s') :
    Ordered ((f.setMember k s').heed e) := by
  have hcalls := calls_heed (f.setMember k s') e
  refine ⟨fun j => ?_, fun call hcall j => ?_, fun call clean hcall => ?_, fun hloops => ?_⟩
  · refine members_setMember (P := Orderly) (h.members j) fun _ => ?_
    exact orderly_on.mp ((orderly_on.mpr (h.members k)).step step)
  · have hidle : f.calls call = .idle := by
      rcases hcalls call with hsame | ⟨clean, clean', -, hclean⟩
      · rw [← hcall, hsame]
        rfl
      · rw [hclean] at hcall
        cases hcall
    refine members_setMember (P := fun s => s.callers (.shutdown call) = .idle)
      (h.fresh call hidle j) fun _ => ?_
    have hstays := idle_step (hordinary.ne_begins (.inr ⟨call, rfl⟩)) step (h.fresh call hidle k)
    exact hstays
  · rw [loops_heed]
    rcases hcalls call with hsame | ⟨clean', clean'', -, hclean⟩
    · rw [hsame] at hcall
      exact h.looked call clean hcall
    · rw [hclean] at hcall
      rcases hcall with ⟨loops, hcall⟩ | hcall <;> cases hcall
  · rw [loops_heed] at hloops
    rcases h.loops hloops with ⟨call, clean, hcall⟩ | hidle
    · refine .inl ⟨call, clean, ?_⟩
      rcases hcalls call with hsame | ⟨clean', clean'', hclean, -⟩
      · rw [hsame]
        exact hcall
      · rw [show f.calls call = .stopping clean' from hclean] at hcall
        cases hcall
    · refine .inr fun j => ?_
      refine members_setMember (P := fun s => s.callers .loop = .idle) (hidle j) fun _ => ?_
      have hstays := idle_step (hordinary.ne_begins (.inl rfl)) step (hidle k)
      exact hstays

theorem Covers.uses (h : Covers call j f) (hf : Ordered f) (hordinary : e.Ordinary)
    (step : Shared.Step net ((f.members k).on f.network) e s') :
    Covers call j ((f.setMember k s').heed e) := by
  refine ⟨by rw [registered_heed]; exact h.registered, ?_⟩
  have hreached : Reached call (((f.setMember k s').heed e).members j) (f.calls call) := by
    refine members_setMember (P := fun s => Reached call s (f.calls call)) h.reached ?_
    rintro rfl
    exact h.reached.step (hf.members j) (hordinary.ne_begins (.inr ⟨call, rfl⟩)) step
  rcases calls_heed (f.setMember k s') e call with hsame | ⟨clean, clean', hclean, hclean'⟩
  · rw [hsame]
    exact hreached
  · rw [show f.calls call = .stopping clean from hclean] at hreached
    rw [hclean']
    exact hreached.noted

/-- **A fleet stays in order**, whoever takes the next step. -/
theorem Ordered.step (h : Ordered f) (step : Step net f f') : Ordered f' := by
  cases step with
  | uses hordinary step => exact h.uses hordinary step
  | begins hcall => exact h.begins net hcall
  | joins hcall _ => exact h.joins hcall
  | returns hcall hidle => exact h.returns hcall hidle
  | registers _ _ => exact ⟨h.members, h.fresh, h.looked, h.loops⟩

theorem ordered_steps (h : Ordered f) (run : Steps net f f') : Ordered f' := by
  induction run with
  | refl => exact h
  | tail _ step ih => exact ih.step step

theorem Covers.step (h : Covers call k f) (hf : Ordered f) (step : Step net f f') :
    Covers call k f' := by
  cases step with
  | uses hordinary step => exact h.uses hf hordinary step
  | begins hcall => exact h.begins hf net hcall
  | joins hcall hidle => exact h.joins hcall hidle
  | returns hcall _ => exact h.returns hcall
  | registers _ _ => exact ⟨by simp [register, h.registered], h.reached⟩

theorem covers_steps (h : Covers call k f) (hf : Ordered f) (run : Steps net f f') :
    Covers call k f' := by
  induction run with
  | refl => exact h
  | tail run step ih => exact ih.step (ordered_steps hf run) step

theorem closable (net : Carrier (StateM σ) L) (peers : κ → Peer) (config : ClientConfig)
    (registered : κ → Bool) (n : σ) :
    Closable net (start peers config registered n : SharedFleet κ τ ι L σ) := by
  have hstart := ordered_start (τ := τ) (ι := ι) (L := L) peers config registered n
  refine ⟨fun f f' call clean k run hcall hk run' hreturned => ?_,
    fun f call clean run hcall hothers => ?_⟩
  · have hf := ordered_steps hstart run
    have hreached := (covers_steps (hf.covers hcall hk) hf run').reached
    rw [hreturned] at hreached
    cases hreached with
    | returned hshut => exact ⟨hshut.connection_shut.line, hshut.connection_shut.connected⟩
  · have hf := ordered_steps hstart run
    rcases hf.loops (hf.looked call clean (.inr hcall)) with ⟨other, clean', hother⟩ | hidle
    · exact absurd hother (hothers other clean')
    · exact hidle

end SharedFleet

/--
**Stop is final**, for a connection, and for the connections of a fleet that are registered when it
is shut down, whatever is under way and whoever takes the next step.

A stop marks the connection before it takes the lock, and a connect looks for the mark after it has
taken the lock.  So whichever of the two has the lock first, no stream is left when the stop lets go
of it, and none is stored after that.
-/
theorem stop_final {ι κ τ L σ : Type} [DecidableEq ι] [DecidableEq κ] [DecidableEq τ]
    (net : Carrier (StateM σ) L) (config : ClientConfig) (n : σ) :
    (∀ peer, Stoppable net ({ connection := { peer, config }, network := n } : Shared ι L σ))
      ∧ ∀ peers registered, SharedFleet.Closable net
        (SharedFleet.start peers config registered n : SharedFleet κ τ ι L σ) :=
  ⟨fun peer => Shared.stoppable net peer config n,
    fun peers registered => SharedFleet.closable net peers config registered n⟩

/-- A connection that two may use. -/
def sampleShared : Shared Bool Nat Network where
  connection := { peer := ⟨"alpha", 2678, "key"⟩, config := { keyDir := "" } }
  network := sampleScripted

-- The stop marks the connection while the connect shakes hands, but the connect takes the lock
-- first, and finds the mark.
set_option maxRecDepth 3000 in
example : (sampleShared.follow (Network.carrier 1000)
    (.begin false .connect :: List.replicate 3 (.goOn false) ++ .begin true .stop :: .goOn true
      :: List.replicate 9 (.goOn false) ++ List.replicate 9 (.goOn true))).2.connection =
    { sampleShared.connection with stopped := true } := by
  cbv

/-! ## What a shutdown does not end -/

namespace SharedFleet

/-- Of two connections the first is registered. -/
def samplePair : SharedFleet Bool Bool Unit Nat Network :=
  start (fun later => ⟨if later then "beta" else "alpha", 2678, "key"⟩) { keyDir := "" } (! ·)
    { hosts := [("beta:2678", .scripted [sampleScript])], tree := { nodes := [] } }

/-- A shutdown stops the first. -/
def sampleStopped : SharedFleet Bool Bool Unit Nat Network :=
  ((samplePair.stopAll false).setCall false (.stopping true)).follow (Network.carrier 1000) false
    (List.replicate 6 (.goOn (.shutdown false)))

/-- The shutdown waits for its loop, and the loop ends. -/
def sampleJoined : SharedFleet Bool Bool Unit Nat Network :=
  ({ sampleStopped with loops := false }.setCall false (.joining true sampleStopped.loops)).follow
    (Network.carrier 1000) false (List.replicate 2 (.goOn .loop))

/-- Once the shutdown has returned the second is registered, and somebody connects it. -/
def sampleLater : SharedFleet Bool Bool Unit Nat Network :=
  ((sampleJoined.setCall false (.returned true)).register true).follow (Network.carrier 1000) true
    (.begin (.other ()) .connect :: List.replicate 12 (.goOn (.other ())))

theorem steps_sampleLater : Steps (Network.carrier 1000) samplePair sampleLater := by
  have hstopped : Steps (Network.carrier 1000) samplePair sampleStopped :=
    ((Steps.refl samplePair).tail (.begins rfl)).follow false _
  have hidle : ∀ k, (sampleStopped.members k).callers (.shutdown false) = .idle := by
    intro k
    cases k <;> rfl
  have hjoined : Steps (Network.carrier 1000) samplePair sampleJoined :=
    (hstopped.tail (.joins rfl hidle)).follow false _
  have hended : ∀ k, (sampleJoined.members k).callers .loop = .idle := by
    intro k
    cases k <;> rfl
  have hunused : (sampleJoined.setCall false (.returned true)).Unused := by
    intro call
    cases call with
    | false => exact .inr ⟨true, rfl⟩
    | true => exact .inl rfl
  have hunnamed : (sampleJoined.setCall false (.returned true)).Unnamed "beta" := by
    intro k hk
    cases k with
    | false => decide
    | true => cases hk
  have hjoining : sampleJoined.calls false = .joining true true := by rfl
  have hreturned := hjoined.tail (.returns hjoining fun _ => hended)
  have hregistered : Step (Network.carrier 1000) (sampleJoined.setCall false (.returned true))
      ((sampleJoined.setCall false (.returned true)).register true) := .registers hunused hunnamed
  exact (hreturned.tail hregistered).follow true _

set_option maxRecDepth 3000 in
theorem connected_sampleLater :
    sampleLater.calls false = .returned true ∧ sampleLater.registered true = true
      ∧ (sampleLater.members true).connection.connected = true := by
  refine ⟨?_, ?_, ?_⟩ <;> cbv

/-- Two shutdowns at once stop the first. -/
def sampleBoth : SharedFleet Bool Bool Unit Nat Network :=
  ((((samplePair.stopAll false).setCall false (.stopping true)).stopAll true).setCall true
    (.stopping true)).follow (Network.carrier 1000) false
      (List.replicate 6 (.goOn (.shutdown false)) ++ List.replicate 6 (.goOn (.shutdown true)))

/-- One of them waits for the loop, and the other returns. -/
def sampleLeft : SharedFleet Bool Bool Unit Nat Network :=
  (({ sampleBoth with loops := false }.setCall false (.joining true true)).setCall true
    (.joining true false)).setCall true (.returned true)

theorem steps_sampleLeft : Steps (Network.carrier 1000) samplePair sampleLeft := by
  have hboth : Steps (Network.carrier 1000) samplePair sampleBoth :=
    (((Steps.refl samplePair).tail (.begins rfl)).tail (.begins rfl)).follow false _
  have hidle (call : Bool) : ∀ k, (sampleBoth.members k).callers (.shutdown call) = .idle := by
    intro k
    cases k <;> cases call <;> rfl
  have hfirst := hboth.tail (.joins rfl (hidle false))
  have hsecond := hfirst.tail (.joins rfl (hidle true))
  exact hsecond.tail (.returns rfl nofun)

/-- **A shutdown says nothing of connections that are registered later, and one may return before a
loop has ended that another waits for.** -/
theorem not_always_shut :
    (¬ ∀ f call clean, Steps (Network.carrier 1000) samplePair f → f.calls call = .returned clean →
        ∀ k, f.registered k = true → (f.members k).connection.connected = false)
      ∧ ¬ ∀ f call clean, Steps (Network.carrier 1000) samplePair f →
        f.calls call = .returned clean → ∀ k, (f.members k).callers .loop = .idle := by
  constructor
  · intro h
    obtain ⟨hreturned, hregistered, hconnected⟩ := connected_sampleLater
    have hnot := h sampleLater false true steps_sampleLater hreturned true hregistered
    exact Bool.false_ne_true (hnot.symm.trans hconnected)
  · intro h
    have hidle := h sampleLeft true true steps_sampleLeft rfl false
    cases hidle

end SharedFleet

end UnionFS.Client
