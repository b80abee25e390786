import UnionFS.Proofs.Client.Turns

/-!
# Callers take turns

Any callers make requests and heartbeats on one connection, and any of them may take the next step.
Each gets what it would get if all were made one after another, in the order in which they took the
lock (`inTurn_steps`), and the network comes to the same.

What carries this is that the rest of the routine of whoever has the lock, run to its end from where
the connection and the network are, comes to what the errand comes to from where they were when the
lock was taken (`Holds`).
-/

namespace UnionFS.Client

open Connection Routine

variable {ι L σ : Type}

/-! ## Who has the lock, and who waits -/

namespace Shared

/-- A caller has the lock for an errand, and has done some of it. -/
structure Holds (net : Carrier (StateM σ) L) (s : Shared ι L σ) (i : ι) (o : Operation)
    (rest : Routine L o.Answer) (e : Errand) (start : Connection L × σ) : Prop where
  caller : s.callers i = .busy o (rest >>= leave)
  fits : o.Fits s.connection.config
  inside : ∃ found, Inside found (fun _ => Tended found) rest s.connection
  performs : Performs net start (s.connection, s.network)
  finishes : Finishes net o rest s.connection s.network e start

/-- What a caller has still to be told of what it has had the lock for. -/
inductive Owed (s : Shared ι L σ) (i : ι) : List Told → Prop where
  | idle : s.callers i = .idle → Owed s i []
  | waiting {o : Operation} :
    s.callers i = .busy o (o.routine s.connection.peer s.connection.config) →
    s.holder ≠ some i → Owed s i []
  | holding (x : Told) : s.holder = some i → Owed s i [x]
  | answered {o : Operation} {answer : o.Answer} {x : Told} :
    s.callers i = .busy o (.done answer) → o.Fits s.connection.config →
    o.told? answer = some x → Owed s i [x]

variable [DecidableEq ι]

/-- The errands for which the lock has been taken are made one after another. -/
structure Serving (net : Carrier (StateM σ) L) (c : Connection L) (n : σ)
    (es : List (Event ι L)) (s : Shared ι L σ) : Prop where
  free : s.holder = none → (s.connection, s.network) = final net ((turns es).map (·.2)) c n
  held : ∀ i, s.holder = some i → ∃ before e o rest, turns es = before ++ [(i, e)]
    ∧ Holds net s i o rest e (final net (before.map (·.2)) c n)
  owed : ∀ i, ∃ owed, Owed s i owed
    ∧ share net c n i (turns es) = told c.config i es ++ owed

variable {net : Carrier (StateM σ) L} {c : Connection L} {n : σ} {s s' : Shared ι L σ}
  {es : List (Event ι L)} {e : Event ι L} {i j : ι} {o : Operation} {a : Action L}
  {next : a.Answer → Routine L o.Answer}

/-- What a caller is owed does not change as long as it does nothing itself. -/
theorem Owed.of_ne {owed : List Told} (h : Owed s j owed) (step : Step net s e s')
    (hj : j ≠ e.caller) (hholder : s'.holder = some j ↔ s.holder = some j) : Owed s' j owed := by
  have hcallers := step.callers_of_ne hj
  obtain ⟨hpeer, hconfig⟩ := step.peer
  cases h with
  | idle hidle => exact .idle (hcallers.trans hidle)
  | @waiting o hbusy hnot =>
    refine .waiting (o := o) ?_ fun hholds => hnot (hholder.mp hholds)
    rw [hcallers, hpeer, hconfig]
    exact hbusy
  | holding x hholds => exact .holding x (hholder.mpr hholds)
  | answered hbusy hfits htold =>
    refine .answered (hcallers.trans hbusy) ?_ htold
    rw [hconfig]
    exact hfits

theorem Serving.not_holder_of_idle (h : Serving net c n es s) (hi : s.callers i = .idle) :
    s.holder ≠ some i := by
  intro hholder
  obtain ⟨before, e, o, rest, -, hholds⟩ := h.held i hholder
  rw [hholds.caller] at hi
  cases hi

theorem Serving.not_holder_of_done {answer : o.Answer} (h : Serving net c n es s)
    (hi : s.callers i = .busy o (.done answer)) : s.holder ≠ some i := by
  intro hholder
  obtain ⟨before, e, o', rest, -, hholds⟩ := h.held i hholder
  obtain ⟨rfl, hrest⟩ := Caller.busy_unique hi hholds.caller
  exact bind_leave_ne_done hrest.symm

theorem Serving.owed_of_idle (h : Serving net c n es s) (hi : s.callers i = .idle) :
    share net c n i (turns es) = told c.config i es := by
  obtain ⟨owed, howed, hshare⟩ := h.owed i
  cases howed with
  | idle => exact hshare.trans (List.append_nil _)
  | holding x hholder => exact absurd hholder (h.not_holder_of_idle hi)
  | waiting hbusy | answered hbusy =>
    rw [hi] at hbusy
    cases hbusy

theorem Serving.owed_of_holder (h : Serving net c n es s) (hholder : s.holder = some i) :
    ∃ x, share net c n i (turns es) = told c.config i es ++ [x] := by
  obtain ⟨owed, howed, hshare⟩ := h.owed i
  cases howed with
  | holding x => exact ⟨x, hshare⟩
  | idle hidle => exact absurd hholder (h.not_holder_of_idle hidle)
  | waiting _ hnot => exact absurd hholder hnot
  | answered hdone => exact absurd hholder (h.not_holder_of_done hdone)

/-- Who is done has an answer to give, unless the path was too long. -/
theorem Serving.owed_of_done {answer : o.Answer} (h : Serving net c n es s) (ho : o.Serial)
    (hi : s.callers i = .busy o (.done answer)) :
    (∃ x, o.Fits s.connection.config ∧ o.told? answer = some x
        ∧ share net c n i (turns es) = told c.config i es ++ [x])
      ∨ (¬ o.Fits s.connection.config ∧ share net c n i (turns es) = told c.config i es
        ∧ (o.routine s.connection.peer s.connection.config : Routine L _) = .done answer) := by
  obtain ⟨owed, howed, hshare⟩ := h.owed i
  cases howed with
  | holding x hholder => exact absurd hholder (h.not_holder_of_done hi)
  | idle hidle =>
    rw [hi] at hidle
    cases hidle
  | waiting hbusy =>
    obtain ⟨rfl, hrefused⟩ := Caller.busy_unique hi hbusy
    exact .inr ⟨not_fits_of_done ho hrefused.symm, hshare.trans (List.append_nil _), hrefused.symm⟩
  | answered hdone hfits htold =>
    obtain ⟨rfl, hdone⟩ := Caller.busy_unique hi hdone
    cases hdone
    exact .inl ⟨_, hfits, htold, hshare⟩

/-- Nobody takes the lock and nobody is told anything. -/
theorem quiet_concat (c : Connection L) (es : List (Event ι L)) (hturn : e.turn? = none)
    (htold : ∀ i, e.told? c.config i = none) :
    turns (es ++ [e]) = turns es ∧ ∀ i, told c.config i (es ++ [e]) = told c.config i es := by
  refine ⟨?_, fun i => ?_⟩
  · rw [turns_concat, hturn]
    exact List.append_nil _
  · rw [told_concat, htold]
    exact List.append_nil _

theorem Holds.of_ne {rest : Routine L o.Answer} {errand : Errand} {start : Connection L × σ}
    (h : Holds net s j o rest errand start) (step : Step net s e s') (hj : j ≠ e.caller)
    (hconnection : s'.connection = s.connection) (hnetwork : s'.network = s.network) :
    Holds net s' j o rest errand start := by
  refine ⟨(step.callers_of_ne hj).trans h.caller, ?_, ?_, ?_, ?_⟩
  · rw [hconnection]
    exact h.fits
  · rw [hconnection]
    exact h.inside
  · rw [hconnection, hnetwork]
    exact h.performs
  · rw [hconnection, hnetwork]
    exact h.finishes

/-- What is left of the operation of the caller with the lock. -/
theorem Serving.held_of_busy {r : Routine L o.Answer} (h : Serving net c n es s)
    (hi : s.callers i = .busy o r) (hholder : s.holder = some i) :
    ∃ before errand rest, turns es = before ++ [(i, errand)]
      ∧ Holds net s i o rest errand (final net (before.map (·.2)) c n) ∧ r = rest >>= leave := by
  obtain ⟨before, errand, o', rest, hbefore, hholds⟩ := h.held i hholder
  obtain ⟨rfl, hrest⟩ := Caller.busy_unique hi hholds.caller
  exact ⟨before, errand, rest, hbefore, hholds, hrest⟩

/-- The caller with the lock takes a step and keeps it. -/
theorem Serving.act_within (h : Serving net c n es s) (hi : s.callers i = .busy o (.ask a next))
    (hadmits : s.Admits a) (hholder : s.holder = some i) (ha : a.Stays) :
    Serving net c n (es ++ [.acts i o a (s.answer net a)]) (s.act net i o a next) := by
  have step : Step net s (.acts i o a (s.answer net a)) (s.act net i o a next) := .acts hi hadmits
  have hholder' : (s.act net i o a next).holder = s.holder := holder_act_of_stays ha
  obtain ⟨hturns, htold⟩ := quiet_concat (e := .acts i o a (s.answer net a)) c es
    (turn?_of_stays ha) fun _ => rfl
  obtain ⟨before, errand, rest, hbefore, hholds, hrest⟩ := h.held_of_busy hi hholder
  have hi' : (s.act net i o a next).holder = some i := hholder'.trans hholder
  cases rest with
  | done answer =>
    cases hrest
    cases ha
  | ask b k =>
  cases hrest
  obtain ⟨found, -, -, hnext⟩ := hholds.inside
  refine ⟨fun hfree => ?_, fun j hj => ?_, fun j => ?_⟩
  · rw [hi'] at hfree
    cases hfree
  · rw [hi'] at hj
    obtain rfl : i = j := Option.some.inj hj
    refine ⟨before, errand, o, k (s.answer net a), hturns.trans hbefore, callers_act, ?_,
      ⟨found, hnext _ _ gives_act⟩, hholds.performs.tail a, ?_⟩
    · rw [step.peer.2]
      exact hholds.fits
    · -- The rest comes to the same as it did with this step still before it.
      exact ⟨hholds.finishes.told, hholds.finishes.connection, hholds.finishes.network⟩
  · rw [hturns, htold]
    by_cases hj : j = i
    · subst hj
      obtain ⟨x, hshare⟩ := h.owed_of_holder hholder
      exact ⟨[x], .holding x hi', hshare⟩
    · obtain ⟨owed, howed, hshare⟩ := h.owed j
      exact ⟨owed, howed.of_ne step hj (by rw [hholder']), hshare⟩

/-- The caller with the lock lets go of it, and has its answer. -/
theorem Serving.act_release {next : Unit → Routine L o.Answer} (h : Serving net c n es s)
    (hi : s.callers i = .busy o (.ask .release next)) (hholder : s.holder = some i) :
    Serving net c n (es ++ [.acts i o .release ()]) (s.act net i o .release next) := by
  have step : Step net s (.acts i o .release ()) (s.act net i o .release next) := .acts hi trivial
  obtain ⟨hturns, htold⟩ := quiet_concat (e := .acts i o .release ()) c es rfl fun _ => rfl
  obtain ⟨before, errand, rest, hbefore, hholds, hrest⟩ := h.held_of_busy hi hholder
  cases rest with
  | ask b k =>
    cases hrest
    obtain ⟨found, -, hstays, -⟩ := hholds.inside
    cases hstays
  | done answer =>
  cases hrest
  refine ⟨fun _ => ?_, nofun, fun j => ?_⟩
  · rw [hturns, hbefore, List.map_append, List.map_singleton, final_concat]
    exact Prod.ext hholds.finishes.connection hholds.finishes.network
  · rw [hturns, htold]
    by_cases hj : j = i
    · subst hj
      obtain ⟨x, hshare⟩ := h.owed_of_holder hholder
      have hdone : (s.act net j o .release fun _ => .done answer).callers j =
          .busy o (.done answer) := callers_act
      refine ⟨[x], .answered hdone hholds.fits ?_, hshare⟩
      -- What it is owed is what its errand, the last of all, comes to.
      rw [hbefore, share_concat, if_pos rfl] at hshare
      obtain rfl := List.singleton_inj.mp (List.append_inj' hshare rfl).2
      exact hholds.finishes.told
    · obtain ⟨owed, howed, hshare⟩ := h.owed j
      refine ⟨owed, howed.of_ne step hj ⟨nofun, fun hj' => ?_⟩, hshare⟩
      rw [hholder] at hj'
      exact absurd (Option.some.inj hj').symm hj

/-- Whoever does not have the lock, and is not done, has done nothing yet. -/
theorem Serving.of_waiting (h : Serving net c n es s) (hi : s.callers i = .busy o (.ask a next))
    (hnot : s.holder ≠ some i) :
    share net c n i (turns es) = told c.config i es
      ∧ o.routine s.connection.peer s.connection.config = .ask a next := by
  obtain ⟨owed, howed, hshare⟩ := h.owed i
  cases howed with
  | holding x hholder => exact absurd hholder hnot
  | idle hidle =>
    rw [hi] at hidle
    cases hidle
  | answered hdone =>
    obtain ⟨rfl, hdone⟩ := Caller.busy_unique hi hdone
    cases hdone
  | waiting hbusy =>
    obtain ⟨rfl, hbusy⟩ := Caller.busy_unique hi hbusy
    exact ⟨hshare.trans (List.append_nil _), hbusy.symm⟩

/-- A caller takes the lock, and its turn comes. -/
theorem Serving.act_acquire {next : Unit → Routine L o.Answer} (h : Serving net c n es s)
    (ho : o.Serial) (hi : s.callers i = .busy o (.ask .acquire next)) (hfree : s.holder = none) :
    Serving net c n (es ++ [.acts i o .acquire ()]) (s.act net i o .acquire next) := by
  have step : Step net s (.acts i o .acquire ()) (s.act net i o .acquire next) := .acts hi hfree
  have hoff (j : ι) : s.holder ≠ some j := by
    rw [hfree]
    nofun
  obtain ⟨hshare, hrest⟩ := h.of_waiting hi (hoff i)
  have hfits := fits_of_ask hrest
  obtain ⟨errand, p, hturn⟩ := exists_turn (L := L) ho hfits
  rw [hturn.routine] at hrest
  cases hrest
  have hturns : turns (es ++ [.acts i o .acquire ()] : List (Event ι L)) =
      turns es ++ [(i, errand)] := by
    rw [turns_concat]
    show _ ++ (o.errand?.map (i, ·)).toList = _
    rw [hturn.errand?]
    rfl
  have htold (j : ι) : told c.config j (es ++ [.acts i o .acquire ()]) = told c.config j es := by
    rw [told_concat]
    exact List.append_nil _
  have hfinal : (s.connection, s.network) = final net ((turns es).map (·.2)) c n := h.free hfree
  refine ⟨nofun, fun j hj => ?_, fun j => ?_⟩
  · obtain rfl : i = j := Option.some.inj hj
    refine ⟨turns es, errand, o, p, hturns, callers_act, hfits, ?_, ?_, ?_⟩
    · exact ⟨s.connection, hturn.inside s.connection⟩
    · rw [← hfinal]
      exact .refl
    · rw [← hfinal]
      exact hturn.finishes net rfl s.network
  · rw [hturns, htold, share_concat]
    by_cases hj : i = j
    · subst hj
      rw [if_pos rfl, hshare]
      exact ⟨_, .holding _ rfl, rfl⟩
    · obtain ⟨owed, howed, hshare⟩ := h.owed j
      rw [if_neg hj, List.append_nil]
      refine ⟨owed, howed.of_ne step (Ne.symm hj) ⟨fun hj' => ?_, fun hj' => ?_⟩, hshare⟩
      · exact absurd (Option.some.inj hj') hj
      · exact absurd hj' (hoff j)

/-- A caller begins a request or a heartbeat. -/
theorem Serving.begins (h : Serving net c n es s) (hi : s.callers i = .idle) (o : Operation) :
    Serving net c n (es ++ [.begins i o]) (s.start i o) := by
  have step : Step net s (.begins i o) (s.start i o) := .begins o hi
  obtain ⟨hturns, htold⟩ := quiet_concat (e := .begins i o) c es rfl fun _ => rfl
  have hnot := h.not_holder_of_idle hi
  refine ⟨fun hfree => ?_, fun j hj => ?_, fun j => ?_⟩
  · rw [hturns]
    exact h.free hfree
  · obtain ⟨before, errand, o', rest, hbefore, hholds⟩ := h.held j hj
    have hji : j ≠ i := by
      rintro rfl
      exact hnot hj
    exact ⟨before, errand, o', rest, hturns.trans hbefore, hholds.of_ne step hji rfl rfl⟩
  · rw [hturns, htold]
    by_cases hji : j = i
    · subst hji
      exact ⟨[], .waiting callers_start hnot, (h.owed_of_idle hi).trans (List.append_nil _).symm⟩
    · obtain ⟨owed, howed, hshare⟩ := h.owed j
      exact ⟨owed, howed.of_ne step hji .rfl, hshare⟩

/-- Requests and heartbeats do not go on by themselves. -/
theorem finish_of_serial {answer : o.Answer} (ho : o.Serial) :
    s.finish i o answer = s.setCaller i .idle := by
  cases o with
  | request | beat => rfl
  | connect | stop | keepalive => cases ho

/-- A caller is told what has come of its operation. -/
theorem Serving.ends {answer : o.Answer} (h : Serving net c n es s) (ho : o.Serial)
    (hconfig : s.connection.config = c.config) (hi : s.callers i = .busy o (.done answer)) :
    Serving net c n (es ++ [.ends i o answer]) (s.finish i o answer) := by
  have step : Step net s (.ends i o answer) (s.finish i o answer) := .ends hi
  have hnot := h.not_holder_of_done hi
  have hfinish : s.finish i o answer = s.setCaller i .idle := finish_of_serial ho
  have hturns : turns (es ++ [.ends i o answer] : List (Event ι L)) = turns es := by
    rw [turns_concat]
    exact List.append_nil _
  rw [hfinish] at step ⊢
  refine ⟨fun hfree => ?_, fun j hj => ?_, fun j => ?_⟩
  · rw [hturns]
    exact h.free hfree
  · obtain ⟨before, errand, o', rest, hbefore, hholds⟩ := h.held j hj
    have hji : j ≠ i := by
      rintro rfl
      exact hnot hj
    exact ⟨before, errand, o', rest, hturns.trans hbefore, hholds.of_ne step hji rfl rfl⟩
  · rw [hturns, told_concat]
    by_cases hji : i = j
    · subst hji
      refine ⟨[], .idle callers_setCaller, ?_⟩
      show _ = (_ ++ (if i = i ∧ o.Fits c.config then o.told? answer else none).toList) ++ []
      rcases h.owed_of_done ho hi with ⟨x, hfits, htold, hshare⟩ | ⟨hrefused, hshare, -⟩
      · rw [hconfig] at hfits
        rw [List.append_nil, hshare, if_pos ⟨rfl, hfits⟩, htold]
        rfl
      · rw [hconfig] at hrefused
        rw [List.append_nil, hshare, if_neg fun hfits => hrefused hfits.2]
        exact (List.append_nil _).symm
    · obtain ⟨owed, howed, hshare⟩ := h.owed j
      refine ⟨owed, howed.of_ne step (Ne.symm hji) .rfl, ?_⟩
      show _ = (_ ++ (if i = j ∧ o.Fits c.config then o.told? answer else none).toList) ++ owed
      rw [if_neg fun hboth => hji hboth.1, hshare]
      exact congrArg (· ++ owed) (List.append_nil _).symm

/-- A caller takes the next step of its routine. -/
theorem Serving.act (h : Serving net c n es s) (ho : o.Serial)
    (hi : s.callers i = .busy o (.ask a next)) (hadmits : s.Admits a) :
    Serving net c n (es ++ [.acts i o a (s.answer net a)]) (s.act net i o a next) := by
  by_cases hholder : s.holder = some i
  · obtain ⟨before, errand, rest, -, hholds, hrest⟩ := h.held_of_busy hi hholder
    cases rest with
    | done answer =>
      cases hrest
      exact h.act_release hi hholder
    | ask b k =>
      cases hrest
      obtain ⟨found, -, hstays, -⟩ := hholds.inside
      exact h.act_within hi hadmits hholder hstays
  · obtain ⟨-, hrest⟩ := h.of_waiting hi hholder
    obtain ⟨errand, p, hturn⟩ := exists_turn (L := L) ho (fits_of_ask hrest)
    rw [hturn.routine] at hrest
    cases hrest
    exact h.act_acquire ho hi hadmits

/-! ## Runs -/

/-- Nothing but requests and heartbeats has been begun. -/
def AllSerial (es : List (Event ι L)) : Prop :=
  ∀ i o, .begins i o ∈ es → o.Serial

theorem serial_steps (hidle : ∀ i, s.callers i = .idle) (run : Steps net s es s')
    (hes : AllSerial es) {r : Routine L o.Answer} (hi : s'.callers i = .busy o r) : o.Serial := by
  induction run generalizing i o with
  | refl =>
    rw [hidle i] at hi
    cases hi
  | @tail s₁ s₂ es e before step ih =>
    have hbefore : AllSerial es := fun j o ho => hes j o (List.mem_append_left _ ho)
    cases step.comes hi with
    | begins => exact hes i o (List.mem_append_right _ List.mem_cons_self)
    | other _ hbusy | again hbusy | acts hbusy => exact ih hbefore hbusy

theorem serving_start (net : Carrier (StateM σ) L) (c : Connection L) (n : σ) :
    Serving net c n [] ({ connection := c, network := n } : Shared ι L σ) :=
  ⟨fun _ => rfl, nofun, fun _ => ⟨[], .idle rfl, rfl⟩⟩

/-- **The errands of a run are made one after another**, in the order in which the lock is taken. -/
theorem serving_steps (run : Steps net ({ connection := c, network := n } : Shared ι L σ) es s)
    (hes : AllSerial es) : Serving net c n es s := by
  generalize hstart : ({ connection := c, network := n } : Shared ι L σ) = start at run
  induction run with
  | refl =>
    rw [← hstart]
    exact serving_start net c n
  | @tail s₁ s₂ es e before step ih =>
    have hbefore : AllSerial es := fun j o ho => hes j o (List.mem_append_left _ ho)
    have hidle (i : ι) : start.callers i = .idle := by
      rw [← hstart]
    have hconfig : s₁.connection.config = c.config := by
      rw [before.peer.2, ← hstart]
    cases step with
    | begins o hi => exact (ih hbefore).begins hi o
    | acts hi hadmits => exact (ih hbefore).act (serial_steps hidle before hbefore hi) hi hadmits
    | ends hi => exact (ih hbefore).ends (serial_steps hidle before hbefore hi) hconfig hi

/-- A request with too long a path is refused. -/
theorem refused_steps (run : Steps net ({ connection := c, network := n } : Shared ι L σ) es s)
    (hes : AllSerial es) {r : Request} {answer : Outcome r.Answer}
    (hr : ¬ (Operation.request r).Fits c.config) (hends : .ends i (.request r) answer ∈ es) :
    answer = .error .nameTooLong := by
  generalize hstart : ({ connection := c, network := n } : Shared ι L σ) = start at run
  induction run with
  | refl => cases hends
  | @tail s₁ s₂ es e before step ih =>
    have hbefore : AllSerial es := fun j o ho => hes j o (List.mem_append_left _ ho)
    rcases List.mem_append.mp hends with hends | hends
    · exact ih hbefore hends
    · obtain rfl := List.mem_singleton.mp hends
      subst hstart
      have hconfig : s₁.connection.config = c.config := before.peer.2
      rw [← hconfig] at hr
      cases step with
      | ends hi =>
        rcases (serving_steps before hbefore).owed_of_done (o := .request r) trivial hi with
          ⟨x, hfits, -⟩ | ⟨-, -, hdone⟩
        · exact absurd hfits hr
        · change Routine.request _ _ = _ at hdone
          rw [Routine.request, if_pos (Nat.not_le.mp hr)] at hdone
          cases hdone
          rfl

/-- What can be said of requests and heartbeats on one connection, begun by anybody at any time. -/
structure InTurn (net : Carrier (StateM σ) L) (c : Connection L) (n : σ)
    (es : List (Event ι L)) (s : Shared ι L σ) : Prop where
  /-- Each has come to what it comes to when all are made one after another. -/
  answers : ∀ i, told c.config i es <+: share net c n i (turns es)
  all : ∀ i, s.callers i = .idle → told c.config i es = share net c n i (turns es)
  refused : ∀ i r answer, .ends i (.request r) answer ∈ es → ¬ (Operation.request r).Fits c.config →
    answer = .error .nameTooLong
  free : s.holder = none → (s.connection, s.network) = final net ((turns es).map (·.2)) c n
  /-- Who has the lock is at the last of them. -/
  held : ∀ i, s.holder = some i → ∃ before e o rest, turns es = before ++ [(i, e)]
    ∧ Holds net s i o rest e (final net (before.map (·.2)) c n)

theorem inTurn_steps (run : Steps net ({ connection := c, network := n } : Shared ι L σ) es s)
    (hes : AllSerial es) : InTurn net c n es s := by
  have hserving := serving_steps run hes
  refine ⟨fun i => ?_, fun i hidle => ?_, fun i r answer hends hr => ?_, hserving.free,
    hserving.held⟩
  · obtain ⟨owed, -, hshare⟩ := hserving.owed i
    exact ⟨owed, hshare.symm⟩
  · exact (hserving.owed_of_idle hidle).symm
  · exact refused_steps run hes hr hends

end Shared

end UnionFS.Client
