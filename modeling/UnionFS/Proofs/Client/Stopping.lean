import UnionFS.Proofs.Client.Lock

/-!
# Connections that are stopped while they are used

Whoever uses a connection, and whoever takes the next step: while nobody has the lock the connection
is consistent (`orderly_steps`), and after a stop has returned it is shut for good
(`shut_of_stopped`).

Both are one invariant (`Sound`) of two properties of a connection.  A routine that took the lock on
a connection with the property leaves it with the property; the rest of a routine that has not taken
the lock can only mark the connection, and both properties survive that.
-/

namespace UnionFS.Client

open Connection Routine

namespace Action

variable {L : Type} {a : Action L} {answer : a.Answer} {c c' : Connection L}

theorem Free.stays (ha : a.Free) : a.Stays := by
  cases a with
  | acquire | release => cases ha
  | _ => trivial

/-- Nobody takes a mark away. -/
theorem Gives.stopped (h : a.Gives c answer c') (hc : c.stopped = true) : c'.stopped = true := by
  cases a with
  | isStopped =>
    obtain ⟨hanswer, rfl⟩ := h
    exact hanswer hc
  | isConnected | stored =>
    obtain ⟨-, rfl⟩ := h
    exact hc
  | _ =>
    obtain rfl := h
    first | exact hc | rfl

end Action

namespace Shared

variable {ι L σ : Type} {I : Connection L → Prop} {s s' : Shared ι L σ}

/-- The property of connections lasts: it survives a mark, and what routines do with the lock. -/
structure Lasting (I : Connection L → Prop) : Prop where
  marked : ∀ {c : Connection L}, I c → I c.marked
  left : ∀ {found c : Connection L}, Spared found c → Left found c → I found → I c

theorem lasting_consistent : Lasting (Consistent (L := L)) :=
  ⟨Consistent.marked, fun _ hleft hfound => hleft hfound⟩

theorem lasting_shut : Lasting (Shut (L := L)) :=
  ⟨Shut.marked, fun hspared _ hfound => hspared hfound⟩

/-- The connection has the property while nobody has the lock, and had it when the lock was taken.
-/
structure Sound (I : Connection L → Prop) (s : Shared ι L σ) : Prop where
  free : s.holder = none → I s.connection
  held : ∀ i, s.holder = some i → ∃ o rest found, s.callers i = .busy o rest ∧ I found
    ∧ (o = .stop → found.stopped = true) ∧ Locks o.Leaves rest (some (found, s.connection))
  outside : ∀ i o rest, s.callers i = .busy o rest → s.holder ≠ some i →
    Locks o.Leaves rest none

/-- How far a stop is. -/
inductive Stage (s : Shared ι L σ) (i : ι) : Routine L Bool → Prop where
  | begun : Stage s i .stop
  | marked {next : Unit → Routine L Bool} :
    s.connection.stopped = true → Stage s i (.ask .acquire next)
  | inside {rest : Routine L Bool} : s.holder = some i → Stage s i rest
  | shut {rest : Routine L Bool} : Sound Shut s → Stage s i rest

/-- All who use the connection keep to its rules. -/
structure Orderly (s : Shared ι L σ) : Prop where
  sound : Sound Consistent s
  stage : ∀ i rest, s.callers i = .busy .stop rest → Stage s i rest

/-- A connection that nobody uses yet. -/
theorem orderly_of_idle {c : Connection L} (hc : c.Consistent) (n : σ) :
    Orderly ({ connection := c, network := n } : Shared ι L σ) :=
  ⟨⟨fun _ => hc, nofun, nofun⟩, nofun⟩

theorem Sound.connection_shut (h : Sound Shut s) : s.connection.Shut := by
  cases hholder : s.holder with
  | none => exact h.free hholder
  | some i =>
    obtain ⟨o, rest, found, -, hfound, -, hlocks⟩ := h.held i hholder
    cases rest with
    | done a => cases hlocks
    | ask a next => exact hlocks.1 hfound

/-- Who is done with its routine does not have the lock. -/
theorem Sound.not_holder_of_done (h : Sound I s) {i : ι} {o : Operation} {answer : o.Answer}
    (hi : s.callers i = .busy o (.done answer)) : s.holder ≠ some i := by
  intro hholder
  obtain ⟨o', rest, found, hrest, -, -, hlocks⟩ := h.held i hholder
  rw [hi] at hrest
  cases hrest
  cases hlocks

theorem Sound.not_holder_of_idle (h : Sound I s) {i : ι} (hi : s.callers i = .idle) :
    s.holder ≠ some i := by
  intro hholder
  obtain ⟨o, rest, found, hrest, -⟩ := h.held i hholder
  rw [hi] at hrest
  cases hrest

/-- A stop that is about to take the lock has marked the connection. -/
theorem Stage.stopped {i : ι} {rest : Routine L Bool} (h : Stage s i rest)
    {next : Unit → Routine L Bool} (hrest : rest = .ask .acquire next) (hfree : s.holder = none) :
    s.connection.stopped = true := by
  cases h with
  | begun => cases hrest
  | marked hstopped => exact hstopped
  | inside hholder =>
    rw [hfree] at hholder
    cases hholder
  | shut hshut => exact hshut.connection_shut.stopped

variable [DecidableEq ι] {net : Carrier (StateM σ) L} {i j : ι} {o : Operation} {a : Action L}
  {next : a.Answer → Routine L o.Answer}

theorem gives_act : a.Gives s.connection (s.answer net a) (s.act net i o a next).connection :=
  Action.gives_perform ..

theorem holder_act_of_stays (ha : a.Stays) : (s.act net i o a next).holder = s.holder := by
  change s.holderAfter i a = s.holder
  cases a with
  | acquire | release => cases ha
  | _ => rfl

/-! ## A step of a routine -/

/-- The caller who has the lock takes a step and keeps it. -/
theorem Sound.act_within (h : Sound I s) (hi : s.callers i = .busy o (.ask a next))
    (hholder : s.holder = some i) (ha : a.Stays) : Sound I (s.act net i o a next) := by
  have hholder' : (s.act net i o a next).holder = some i := by
    rw [holder_act_of_stays ha, hholder]
  refine ⟨fun hfree => ?_, fun j hj => ?_, fun j o' rest hj hne => ?_⟩
  · rw [hholder'] at hfree
    cases hfree
  · rw [hholder'] at hj
    cases hj
    obtain ⟨o', rest, found, hrest, hfound, hstop, hlocks⟩ := h.held i hholder
    rw [hi] at hrest
    cases hrest
    refine ⟨o, _, found, callers_act, hfound, hstop, hlocks.2.2.2 ?_ _ _ gives_act⟩
    rintro rfl
    cases ha
  · rw [hholder'] at hne
    have hji : j ≠ i := fun hji => hne (congrArg some hji.symm)
    rw [callers_act_of_ne hji] at hj
    refine h.outside j o' rest hj fun hj' => ?_
    rw [hholder] at hj'
    exact hji (Option.some.inj hj').symm

/-- The caller who has the lock lets go of it. -/
theorem Sound.act_release {next : Unit → Routine L o.Answer} (h : Sound I s) (hI : Lasting I)
    (hi : s.callers i = .busy o (.ask .release next)) (hholder : s.holder = some i) :
    Sound I (s.act net i o .release next) := by
  obtain ⟨o', rest, found, hrest, hfound, hstop, hlocks⟩ := h.held i hholder
  rw [hi] at hrest
  cases hrest
  obtain ⟨hleaves, hnext⟩ := hlocks.2.2.1 rfl
  refine ⟨fun _ => hI.left hlocks.1 hleaves.1 hfound, nofun, fun j o' rest hj _ => ?_⟩
  by_cases hji : j = i
  · subst hji
    rw [callers_act] at hj
    cases hj
    exact hnext _
  · rw [callers_act_of_ne hji] at hj
    refine h.outside j o' rest hj fun hj' => ?_
    rw [hholder] at hj'
    exact hji (Option.some.inj hj').symm

/-- A caller takes the lock. -/
theorem Sound.act_acquire {next : Unit → Routine L o.Answer} (h : Sound I s)
    (hi : s.callers i = .busy o (.ask .acquire next)) (hfree : s.holder = none)
    (hstop : o = .stop → s.connection.stopped = true) :
    Sound I (s.act net i o .acquire next) := by
  have hoff (j : ι) : s.holder ≠ some j := by
    rw [hfree]
    nofun
  refine ⟨nofun, fun j hj => ?_, fun j o' rest hj hne => ?_⟩
  · obtain rfl : i = j := Option.some.inj hj
    have hlocks := h.outside i o _ hi (hoff i)
    exact ⟨o, _, s.connection, callers_act, h.free hfree, hstop, hlocks.1 rfl _ _⟩
  · have hji : j ≠ i := by
      rintro rfl
      exact hne rfl
    rw [callers_act_of_ne hji] at hj
    exact h.outside j o' rest hj (hoff j)

/-- A caller without the lock takes a step. -/
theorem Sound.act_free (h : Sound I s) (hI : Lasting I)
    (hi : s.callers i = .busy o (.ask a next)) (hholder : s.holder ≠ some i) (ha : a.Free) :
    Sound I (s.act net i o a next) := by
  have hholder' : (s.act net i o a next).holder = s.holder := holder_act_of_stays ha.stays
  have hconnection : (s.act net i o a next).connection = s.connection
      ∨ (s.act net i o a next).connection = s.connection.marked := gives_act.of_free ha
  refine ⟨fun hfree => ?_, fun j hj => ?_, fun j o' rest hj hne => ?_⟩
  · rw [hholder'] at hfree
    rcases hconnection with hsame | hmarked
    · rw [hsame]
      exact h.free hfree
    · rw [hmarked]
      exact hI.marked (h.free hfree)
  · rw [hholder'] at hj
    obtain ⟨o', rest, found, hrest, hfound, hstop, hlocks⟩ := h.held j hj
    have hji : j ≠ i := by
      rintro rfl
      exact hholder hj
    refine ⟨o', rest, found, ?_, hfound, hstop, ?_⟩
    · rw [callers_act_of_ne hji, hrest]
    · rcases hconnection with hsame | hmarked
      · rw [hsame]
        exact hlocks
      · rw [hmarked]
        refine hlocks.marked fun c hleaves => ?_
        exact ⟨fun hfound => (hleaves.1 hfound).marked,
          fun hstop hfound => (hleaves.2 hstop hfound).marked⟩
  · rw [hholder'] at hne
    by_cases hji : j = i
    · subst hji
      rw [callers_act] at hj
      cases hj
      refine ((h.outside j o _ hi hholder).2 ?_).2 _
      rintro rfl
      cases ha
    · rw [callers_act_of_ne hji] at hj
      exact h.outside j o' rest hj hne

/-- Whose step it is and what it does to the lock. -/
theorem Sound.cases_act (h : Sound I s) (hi : s.callers i = .busy o (.ask a next))
    (hadmits : s.Admits a) :
    (s.holder = some i ∧ (a.Stays ∨ a = .release))
      ∨ (s.holder ≠ some i ∧ (a.Free ∨ a = .acquire ∧ s.holder = none)) := by
  by_cases hholder : s.holder = some i
  · obtain ⟨o', rest, found, hrest, -, -, hlocks⟩ := h.held i hholder
    rw [hi] at hrest
    cases hrest
    refine .inl ⟨hholder, ?_⟩
    cases a with
    | acquire => exact absurd rfl hlocks.2.1
    | release => exact .inr rfl
    | _ => exact .inl trivial
  · refine .inr ⟨hholder, ?_⟩
    have hlocks := h.outside i o _ hi hholder
    by_cases hacquire : a = .acquire
    · subst hacquire
      exact .inr ⟨rfl, hadmits⟩
    · exact .inl (hlocks.2 hacquire).1

theorem Orderly.sound_act (h : Orderly s) (hs : Sound I s) (hI : Lasting I)
    (hi : s.callers i = .busy o (.ask a next)) (hadmits : s.Admits a) :
    Sound I (s.act net i o a next) := by
  rcases hs.cases_act hi hadmits with ⟨hholder, hstays | rfl⟩ | ⟨hholder, hfree | ⟨rfl, hnone⟩⟩
  · exact hs.act_within hi hholder hstays
  · exact hs.act_release hI hi hholder
  · exact hs.act_free hI hi hholder hfree
  · refine hs.act_acquire hi hnone fun hstop => ?_
    -- A stop comes to take the lock only after it has marked the connection.
    subst hstop
    exact (h.stage i _ hi).stopped rfl hnone

/-! ## The other steps -/

theorem Sound.setCaller (h : Sound I s) {caller : Caller L} (hholder : s.holder ≠ some i)
    (hcaller : ∀ o rest, caller = .busy o rest → Locks o.Leaves rest none) :
    Sound I (s.setCaller i caller) := by
  refine ⟨h.free, fun j hj => ?_, fun j o rest hj hne => ?_⟩
  · obtain ⟨o, rest, found, hrest, hfound⟩ := h.held j hj
    have hji : j ≠ i := by
      rintro rfl
      exact hholder hj
    exact ⟨o, rest, found, (if_neg hji).trans hrest, hfound⟩
  · by_cases hji : j = i
    · subst hji
      exact hcaller o rest ((if_pos rfl).symm.trans hj)
    · exact h.outside j o rest ((if_neg hji).symm.trans hj) hne

theorem Sound.start (h : Sound I s) (hholder : s.holder ≠ some i) : Sound I (s.start i o) := by
  refine h.setCaller hholder fun o' rest hrest => ?_
  cases hrest
  exact locks_routine ..

theorem Sound.finish (h : Sound I s) (answer : o.Answer) (hholder : s.holder ≠ some i) :
    Sound I (s.finish i o answer) := by
  unfold Shared.finish
  split
  · exact h.start hholder
  · exact h.setCaller hholder nofun

/-- **What lasts on a connection lasts through every step**, whoever takes it. -/
theorem Orderly.sound_step {e : Event ι L} (h : Orderly s) (hs : Sound I s) (hI : Lasting I)
    (step : Step net s e s') : Sound I s' := by
  cases step with
  | begins o hi => exact hs.start (hs.not_holder_of_idle hi)
  | acts hi hadmits => exact h.sound_act hs hI hi hadmits
  | ends hi => exact hs.finish _ (hs.not_holder_of_done hi)

/-! ## How stops get on -/

/-- A step of somebody else leaves a stop where it is. -/
theorem Orderly.stage_of_ne {e : Event ι L} {rest : Routine L Bool} (h : Orderly s)
    (hstage : Stage s j rest) (step : Step net s e s') (hj : j ≠ e.caller) : Stage s' j rest := by
  cases hstage with
  | begun => exact .begun
  | shut hshut => exact .shut (h.sound_step hshut lasting_shut step)
  | marked hstopped =>
    refine .marked ?_
    cases step with
    | begins o hi => exact hstopped
    | acts hi hadmits => exact gives_act.stopped hstopped
    | ends hi =>
      unfold Shared.finish
      split <;> exact hstopped
  | inside hholder =>
    refine .inside ?_
    cases step with
    | begins o hi => exact hholder
    | ends hi =>
      unfold Shared.finish
      split <;> exact hholder
    | @acts i o a next hi hadmits =>
      have hi' : s.holder ≠ some i := by
        rw [hholder]
        intro hji
        exact hj (Option.some.inj hji)
      rcases h.sound.cases_act hi hadmits with ⟨hholder', -⟩ | ⟨-, hfree | ⟨-, hnone⟩⟩
      · exact absurd hholder' hi'
      · rw [holder_act_of_stays hfree.stays, hholder]
      · rw [hnone] at hholder
        cases hholder

/-- A stop takes its next step: it marks the connection, takes the lock, and lets go of it when the
connection is shut. -/
theorem Orderly.stage_act {next : a.Answer → Routine L Bool} (h : Orderly s)
    (hi : s.callers i = .busy .stop (.ask a next)) (hadmits : s.Admits a) :
    Stage (s.act net i .stop a next) i (next (s.answer net a)) := by
  have hsound : Sound Consistent (s.act net i .stop a next) :=
    h.sound_act h.sound lasting_consistent hi hadmits
  generalize hrest : Plan.ask a next = rest at hi
  cases h.stage i rest hi with
  | begun =>
    cases hrest
    exact .marked rfl
  | marked hstopped =>
    cases hrest
    exact .inside rfl
  | shut hshut =>
    subst hrest
    exact .shut (h.sound_act hshut lasting_shut hi hadmits)
  | inside hholder =>
    subst hrest
    rcases h.sound.cases_act hi hadmits with ⟨-, hstays | rfl⟩ | ⟨hnot, -⟩
    · exact .inside ((holder_act_of_stays hstays).trans hholder)
    · obtain ⟨o, rest, found, hrest, -, hstop, hlocks⟩ := h.sound.held i hholder
      rw [hi] at hrest
      cases hrest
      -- The connection was marked when the lock was taken, so that the stop has left it shut.
      have hshut : s.connection.Shut := (hlocks.2.2.1 rfl).1.2 rfl (hstop rfl)
      exact .shut ⟨fun _ => hshut, nofun, hsound.outside⟩
    · exact absurd hholder hnot

/-- **All who use the connection keep to its rules**, whoever takes the next step. -/
theorem Orderly.step {e : Event ι L} (h : Orderly s) (step : Step net s e s') : Orderly s' := by
  refine ⟨h.sound_step h.sound lasting_consistent step, fun j rest hj => ?_⟩
  cases step.comes hj with
  | other hne hbusy => exact h.stage_of_ne (h.stage j rest hbusy) step hne
  | begins | again => exact .begun
  | acts hbusy hadmits =>
    obtain ⟨-, rfl⟩ := step.of_ask rfl hbusy
    exact h.stage_act hbusy hadmits

/-- A stop that returns leaves the connection shut. -/
theorem Orderly.shut_of_ends {clean : Bool} (h : Orderly s)
    (step : Step net s (.ends i .stop clean) s') : Sound Shut s' := by
  refine h.sound_step ?_ lasting_shut step
  cases step with
  | ends hi =>
    generalize hrest : Plan.done clean = rest at hi
    cases h.stage i rest hi with
    | begun | marked => cases hrest
    | inside hholder =>
      subst hrest
      exact absurd hholder (h.sound.not_holder_of_done hi)
    | shut hshut => exact hshut

/-! ## Runs -/

theorem orderly_steps {es : List (Event ι L)} (h : Orderly s) (run : Steps net s es s') :
    Orderly s' := by
  induction run with
  | refl => exact h
  | tail _ step ih => exact ih.step step

/-- **After a stop has returned the connection stays shut**, whatever was under way. -/
theorem shut_of_stopped {es : List (Event ι L)} {clean : Bool} (h : Orderly s)
    (run : Steps net s es s') (hstop : .ends i .stop clean ∈ es) : Sound Shut s' := by
  induction run with
  | refl => cases hstop
  | tail before step ih =>
    have hbefore := orderly_steps h before
    rcases List.mem_append.mp hstop with hstop | hstop
    · exact hbefore.sound_step (ih hstop) lasting_shut step
    · obtain rfl := List.mem_singleton.mp hstop
      exact hbefore.shut_of_ends step

/-! ## How a keepalive loop ends -/

/-- What happens by a caller's own steps. -/
def own (i : ι) (es : List (Event ι L)) : List (Event ι L) :=
  es.filter (·.caller = i)

/-- The last round of a keepalive loop. -/
def lastRound (i : ι) : List (Event ι L) :=
  [.acts i .keepalive .isStopped true, .ends i .keepalive false]

/-- How far a round of the loop is that was begun on a connection that is shut. -/
inductive Ending (peer : Peer) (s : Shared ι L σ) (i : ι) : List (Event ι L) → Prop where
  | begun : s.callers i = .busy .keepalive (.keepalive peer) → Ending peer s i []
  | found : s.callers i = .busy .keepalive (.done false) →
    Ending peer s i [.acts i .keepalive .isStopped true]
  | ended (more : List (Event ι L)) : Ending peer s i (lastRound i ++ more)

omit [DecidableEq ι] in
theorem Ending.take_two {peer : Peer} {es : List (Event ι L)} (h : Ending peer s i es) :
    es.take 2 <+: lastRound i := by
  cases h with
  | begun => exact List.nil_prefix
  | found => exact ⟨_, rfl⟩
  | ended more => exact List.prefix_rfl

/-- The loop goes on with its last round. -/
theorem Ending.step {peer : Peer} {es : List (Event ι L)} {e : Event ι L} (h : Ending peer s i es)
    (hshut : s.connection.Shut) (step : Step net s e s') : Ending peer s' i (es ++ own i [e]) := by
  by_cases hi : e.caller = i
  · have hown : own i [e] = [e] := List.filter_eq_self.mpr (by simpa using hi)
    rw [hown]
    cases h with
    | ended more =>
      rw [List.append_assoc]
      exact .ended _
    | begun hround =>
      obtain ⟨rfl, rfl⟩ := step.of_ask hi hround
      have hstopped : s.answer net .isStopped = true := hshut.stopped
      rw [hstopped]
      refine .found ?_
      rw [callers_act, hstopped]
      rfl
    | found hround =>
      obtain ⟨rfl, rfl⟩ := step.of_done hi hround
      exact .ended []
  · have hown : own i [e] = [] := List.filter_eq_nil_iff.mpr (by simpa using hi)
    have hsame := step.callers_of_ne (Ne.symm hi)
    rw [hown, List.append_nil]
    cases h with
    | ended more => exact .ended more
    | begun hround => exact .begun (hsame.trans hround)
    | found hround => exact .found (hsame.trans hround)

/-- **A keepalive loop ends the next time it looks**, once the connection is shut. -/
theorem ending_steps {peer : Peer} {es : List (Event ι L)} (h : Orderly s) (hshut : Sound Shut s)
    (hi : s.callers i = .busy .keepalive (.keepalive peer)) (run : Steps net s es s') :
    Ending peer s' i (own i es) ∧ Sound Shut s' := by
  induction run with
  | refl => exact ⟨.begun hi, hshut⟩
  | @tail _ _ es e before step ih =>
    obtain ⟨hending, hshut⟩ := ih
    refine ⟨?_, (orderly_steps h before).sound_step hshut lasting_shut step⟩
    rw [own, List.filter_append]
    exact hending.step hshut.connection_shut step

end Shared
end UnionFS.Client
