import UnionFS.Plan

/-!
# What a plan goes through

A run of a plan as the list of its exchanges, each a question with its answer, and what it ends in,
whoever answers (`Goes`).  A run of a plan made of two is a run of the one and then a run of the
other (`goes_bind_iff`), so what is true of every run is read off the plan piece by piece; and the
transcript of a plan that is answered by some state is one of its runs (`goes_transcript`).
-/

namespace UnionFS.Plan

variable {Call : Type} {Answer : Call → Type} {α β S : Type}

/-- The plan, answered in this way, ends in a value. -/
inductive Goes : Plan Call Answer α → List ((c : Call) × Answer c) → α → Prop where
  | done (a : α) : Goes (.done a) [] a
  | ask {c : Call} {next : Answer c → Plan Call Answer α} {answer : Answer c}
    {exchanges : List ((c : Call) × Answer c)} {a : α} :
    Goes (next answer) exchanges a → Goes (.ask c next) (⟨c, answer⟩ :: exchanges) a

variable {p : Plan Call Answer α} {k : α → Plan Call Answer β} {c : Call}
  {exchanges : List ((c : Call) × Answer c)} {a a' : α} {b : β}

theorem goes_pure_iff : (pure a : Plan Call Answer α).Goes exchanges a' ↔
    exchanges = [] ∧ a' = a := by
  constructor
  · intro h
    cases h
    exact ⟨rfl, rfl⟩
  · rintro ⟨rfl, rfl⟩
    exact .done a'

theorem goes_question_iff {answer : Answer c} :
    (question c : Plan Call Answer (Answer c)).Goes exchanges answer ↔
      exchanges = [⟨c, answer⟩] := by
  constructor
  · intro h
    cases h with
    | ask h =>
        cases h
        rfl
  · rintro rfl
    exact .ask (.done answer)

/-- **A run of a plan made of two is a run of each.** -/
theorem goes_bind_iff : (p >>= k).Goes exchanges b ↔
    ∃ first a rest, exchanges = first ++ rest ∧ p.Goes first a ∧ (k a).Goes rest b := by
  constructor
  · intro h
    induction p generalizing exchanges with
    | done a => exact ⟨[], a, exchanges, rfl, .done a, h⟩
    | ask c next ih =>
        have h' : (Plan.ask c fun answer => next answer >>= k).Goes exchanges b := h
        cases h' with
        | ask hrest =>
            obtain ⟨first, a, rest, rfl, hfirst, hrest⟩ := ih _ hrest
            exact ⟨_, a, rest, rfl, .ask hfirst, hrest⟩
  · rintro ⟨first, a, rest, rfl, hfirst, hrest⟩
    induction hfirst with
    | done a => exact hrest
    | ask _ ih => exact .ask (ih hrest)

/-- A run of a plan whose value is then changed. -/
theorem goes_map_iff {f : α → β} : (p >>= fun a => pure (f a)).Goes exchanges b ↔
    ∃ a, p.Goes exchanges a ∧ b = f a := by
  rw [goes_bind_iff]
  constructor
  · rintro ⟨first, a, rest, rfl, hfirst, hrest⟩
    obtain ⟨rfl, rfl⟩ := goes_pure_iff.mp hrest
    rw [List.append_nil]
    exact ⟨a, hfirst, rfl⟩
  · rintro ⟨a, h, rfl⟩
    exact ⟨exchanges, a, [], (List.append_nil _).symm, h, .done _⟩

/-! ## Answers of a state -/

variable {answer : (c : Call) → S → Answer c × S} {s s' : S}

/-- The questions that a plan asks, in order, and the answers. -/
def transcript (answer : (c : Call) → S → Answer c × S) :
    Plan Call Answer α → S → List ((c : Call) × Answer c)
  | done _, _ => []
  | ask c next, s => ⟨c, (answer c s).1⟩ :: (next (answer c s).1).transcript answer (answer c s).2

theorem map_fst_transcript (answer : (c : Call) → S → Answer c × S) (p : Plan Call Answer α)
    (s : S) : (p.transcript answer s).map Sigma.fst = p.calls answer s := by
  induction p generalizing s with
  | done a => rfl
  | ask c next ih => exact congrArg (c :: ·) (ih _ _)

/-- What is true of every question with its answer is true all through a transcript. -/
theorem forall_mem_transcript {P : ((c : Call) × Answer c) → Prop}
    (h : ∀ c s, P ⟨c, (answer c s).1⟩) (p : Plan Call Answer α) (s : S) :
    ∀ x ∈ p.transcript answer s, P x := by
  induction p generalizing s with
  | done a => exact nofun
  | ask c next ih => exact List.forall_mem_cons.mpr ⟨h c s, ih _ _⟩

/-- **What a plan goes through with a state is one of its runs.** -/
theorem goes_transcript (answer : (c : Call) → S → Answer c × S) (p : Plan Call Answer α) (s : S) :
    p.Goes (p.transcript answer s) (p.outcome answer s).1 := by
  induction p generalizing s with
  | done a => exact .done a
  | ask c next ih => exact .ask (ih _ _)

/-- A state that is asked all this answers in this way, and becomes another. -/
inductive Answers (answer : (c : Call) → S → Answer c × S) :
    List ((c : Call) × Answer c) → S → S → Prop where
  | nil (s : S) : Answers answer [] s s
  | cons {x : (c : Call) × Answer c} {rest : List ((c : Call) × Answer c)} {s s' : S} :
    (answer x.1 s).1 = x.2 → Answers answer rest (answer x.1 s).2 s' →
      Answers answer (x :: rest) s s'

theorem answers_cons_iff {x : (c : Call) × Answer c} :
    Answers answer (x :: exchanges) s s' ↔
      (answer x.1 s).1 = x.2 ∧ Answers answer exchanges (answer x.1 s).2 s' := by
  constructor
  · intro h
    cases h with
    | cons hx hrest => exact ⟨hx, hrest⟩
  · rintro ⟨hx, hrest⟩
    exact .cons hx hrest

theorem answers_singleton_iff {x : (c : Call) × Answer c} :
    Answers answer [x] s s' ↔ (answer x.1 s).1 = x.2 ∧ s' = (answer x.1 s).2 := by
  rw [answers_cons_iff]
  refine and_congr_right fun _ => ⟨fun h => ?_, fun h => h ▸ .nil _⟩
  cases h
  rfl

theorem answers_append_iff {rest : List ((c : Call) × Answer c)} :
    Answers answer (exchanges ++ rest) s s' ↔
      ∃ between, Answers answer exchanges s between ∧ Answers answer rest between s' := by
  constructor
  · intro h
    induction exchanges generalizing s with
    | nil => exact ⟨s, .nil s, h⟩
    | cons x others ih =>
        obtain ⟨hx, h⟩ := answers_cons_iff.mp h
        obtain ⟨between, hothers, hrest⟩ := ih h
        exact ⟨between, .cons hx hothers, hrest⟩
  · rintro ⟨between, hfirst, hrest⟩
    induction hfirst with
    | nil => exact hrest
    | cons hx _ ih => exact .cons hx (ih hrest)

/-- The state after a plan is what its transcript has made of it. -/
theorem answers_transcript (answer : (c : Call) → S → Answer c × S) (p : Plan Call Answer α)
    (s : S) : Answers answer (p.transcript answer s) s (p.outcome answer s).2 := by
  induction p generalizing s with
  | done a => exact .nil s
  | ask c next ih => exact .cons rfl (ih _ _)

/-- A run with the answers that a state gives is the one that the state takes part in. -/
theorem outcome_of_goes (h : p.Goes exchanges a) (hanswers : Answers answer exchanges s s') :
    p.outcome answer s = (a, s') := by
  induction h generalizing s with
  | done a =>
      cases hanswers
      rfl
  | ask _ ih =>
      obtain ⟨hanswer, hrest⟩ := answers_cons_iff.mp hanswers
      rw [outcome, hanswer]
      exact ih hrest

theorem transcript_of_goes (h : p.Goes exchanges a) (hanswers : Answers answer exchanges s s') :
    p.transcript answer s = exchanges := by
  induction h generalizing s with
  | done a => rfl
  | ask _ ih =>
      obtain ⟨hanswer, hrest⟩ := answers_cons_iff.mp hanswers
      rw [transcript, hanswer, ih hrest]

/-- A plan without questions leaves the state as it is. -/
theorem outcome_of_calls_eq_nil (h : p.calls answer s = []) :
    ∃ a, p = .done a ∧ p.outcome answer s = (a, s) := by
  cases p with
  | done a => exact ⟨a, rfl, rfl⟩
  | ask c next => cases h

end UnionFS.Plan
