import UnionFS.Client.Routine

/-!
# Shared connections

One connection and those who use it at once.  Each caller follows a routine, and any of them may
take the next step, save that the lock has one holder at a time.  The keepalive loop is a caller who
goes round until it finds the connection stopped.

* `Step.functional`: the event of a step settles the state after it;
* `Step.of_ask`, `Step.of_done`, `Step.of_idle`: what a caller can do next;
* `Step.comes`: what it has done last;
* `Step.callers_of_ne`: only the caller who takes a step gets further;
* `Steps.append`: a run and a run from where it ended make a run.
-/

namespace UnionFS.Client

/-- What can be begun on a connection. -/
inductive Operation where
  | connect
  | request (r : Request)
  | beat
  | stop
  /-- A round of the keepalive loop, and those that follow it. -/
  | keepalive
  deriving DecidableEq, Repr

namespace Operation

abbrev Answer : Operation → Type
  | connect => Except ConnectionError Unit
  | request r => Outcome r.Answer
  | beat | stop | keepalive => Bool

def routine {L : Type} (peer : Peer) (config : ClientConfig) : (o : Operation) → Routine L o.Answer
  | connect => .connect peer
  | request r => .request config r
  | beat => .beat
  | stop => .stop
  | keepalive => .keepalive peer

/-- The operation goes on after this answer. -/
def Repeats : (o : Operation) → o.Answer → Prop
  | keepalive, goesOn => goesOn = true
  | connect, _ | request _, _ | beat, _ | stop, _ => False

instance : (o : Operation) → (answer : o.Answer) → Decidable (o.Repeats answer)
  | keepalive, goesOn => inferInstanceAs (Decidable (goesOn = true))
  | connect, _ | request _, _ | beat, _ | stop, _ => .isFalse id

end Operation

/-- Who may use a connection, and how far along it is. -/
inductive Caller (L : Type) where
  | idle
  | busy (operation : Operation) (rest : Routine L operation.Answer)

/-- A caller is in one operation, and has one rest of it to do. -/
theorem Caller.busy_unique {L : Type} {caller : Caller L} {o o' : Operation}
    {rest : Routine L o.Answer} {rest' : Routine L o'.Answer} (h : caller = .busy o rest)
    (h' : caller = .busy o' rest') : ∃ ho : o = o', ho ▸ rest = rest' := by
  rw [h] at h'
  obtain ⟨rfl, hrest⟩ := Caller.busy.inj h'
  exact ⟨rfl, eq_of_heq hrest⟩

/-- A connection with callers `ι`, on a network in the state `σ`. -/
structure Shared (ι L σ : Type) where
  connection : Connection L
  network : σ
  /-- Who has the lock. -/
  holder : Option ι := none
  callers : ι → Caller L := fun _ => .idle

/-- What others see of a step. -/
inductive Event (ι L : Type) where
  | begins (caller : ι) (operation : Operation)
  | acts (caller : ι) (operation : Operation) (action : Action L) (answer : action.Answer)
  | ends (caller : ι) (operation : Operation) (answer : operation.Answer)

def Event.caller {ι L : Type} : Event ι L → ι
  | begins i _ | acts i _ _ _ | ends i _ _ => i

namespace Shared

variable {ι L σ : Type}

/-- A caller has to wait for the lock while it is taken. -/
def Admits (s : Shared ι L σ) : Action L → Prop
  | .acquire => s.holder = none
  | _ => True

/-- Who has the lock after a caller's step. -/
def holderAfter (s : Shared ι L σ) (i : ι) : Action L → Option ι
  | .acquire => some i
  | .release => none
  | _ => s.holder

variable [DecidableEq ι]

def setCaller (s : Shared ι L σ) (i : ι) (caller : Caller L) : Shared ι L σ :=
  { s with callers := fun j => if j = i then caller else s.callers j }

/-- The routine of an operation begins. -/
def start (s : Shared ι L σ) (i : ι) (o : Operation) : Shared ι L σ :=
  s.setCaller i (.busy o (o.routine s.connection.peer s.connection.config))

/-- What a step gives its caller. -/
def answer (s : Shared ι L σ) (net : Carrier (StateM σ) L) (a : Action L) : a.Answer :=
  ((a.perform net s.connection).run s.network).1.1

/-- A caller takes a step of its routine. -/
def act (s : Shared ι L σ) (net : Carrier (StateM σ) L) (i : ι) (o : Operation) (a : Action L)
    (next : a.Answer → Routine L o.Answer) : Shared ι L σ :=
  let ((answer, connection), network) := (a.perform net s.connection).run s.network
  { s.setCaller i (.busy o (next answer)) with connection, network, holder := s.holderAfter i a }

/-- An operation is over, or goes on with another round. -/
def finish (s : Shared ι L σ) (i : ι) (o : Operation) (answer : o.Answer) : Shared ι L σ :=
  if o.Repeats answer then s.start i o else s.setCaller i .idle

section
variable {s : Shared ι L σ} {net : Carrier (StateM σ) L} {i j : ι} {o : Operation} {a : Action L}
  {next : a.Answer → Routine L o.Answer} {caller : Caller L}

theorem callers_setCaller : (s.setCaller i caller).callers i = caller :=
  if_pos rfl

theorem callers_start :
    (s.start i o).callers i = .busy o (o.routine s.connection.peer s.connection.config) :=
  callers_setCaller

theorem callers_act : (s.act net i o a next).callers i = .busy o (next (s.answer net a)) :=
  if_pos rfl

theorem callers_act_of_ne (hj : j ≠ i) : (s.act net i o a next).callers j = s.callers j :=
  if_neg hj

end

/-- One caller's next step, whoever it is. -/
inductive Step (net : Carrier (StateM σ) L) : Shared ι L σ → Event ι L → Shared ι L σ → Prop where
  | begins {s : Shared ι L σ} {i : ι} (o : Operation) :
    s.callers i = .idle → Step net s (.begins i o) (s.start i o)
  | acts {s : Shared ι L σ} {i : ι} {o : Operation} {a : Action L}
    {next : a.Answer → Routine L o.Answer} :
    s.callers i = .busy o (.ask a next) → s.Admits a →
    Step net s (.acts i o a (s.answer net a)) (s.act net i o a next)
  | ends {s : Shared ι L σ} {i : ι} {o : Operation} {answer : o.Answer} :
    s.callers i = .busy o (.done answer) →
    Step net s (.ends i o answer) (s.finish i o answer)

/-- What happened, oldest first, on the way from one state to another. -/
inductive Steps (net : Carrier (StateM σ) L) :
    Shared ι L σ → List (Event ι L) → Shared ι L σ → Prop where
  | refl (s : Shared ι L σ) : Steps net s [] s
  | tail {s s' s'' : Shared ι L σ} {es : List (Event ι L)} {e : Event ι L} :
    Steps net s es s' → Step net s' e s'' → Steps net s (es ++ [e]) s''

/-- What may be chosen for the next step: that a caller begins something, or that it goes on. -/
inductive Choice (ι : Type) where
  | begin (caller : ι) (operation : Operation)
  | goOn (caller : ι)

instance (s : Shared ι L σ) : (a : Action L) → Decidable (s.Admits a)
  | .acquire => inferInstanceAs (Decidable (s.holder = none))
  | .isConnected | .isStopped | .markStopped | .release | .stored | .store _ | .setConnected _
  | .dial _ | .send _ _ | .receive _ _ | .shutdown _ | .drop _ => .isTrue trivial

/-- The step that is chosen, if it can be taken. -/
def choose (s : Shared ι L σ) (net : Carrier (StateM σ) L) :
    Choice ι → Option (Event ι L × Shared ι L σ)
  | .begin i o =>
    match s.callers i with
    | .idle => some (.begins i o, s.start i o)
    | .busy _ _ => none
  | .goOn i =>
    match s.callers i with
    | .idle => none
    | .busy o (.done answer) => some (.ends i o answer, s.finish i o answer)
    | .busy o (.ask a next) =>
      if s.Admits a then some (.acts i o a (s.answer net a), s.act net i o a next) else none

/-- The steps that are chosen, as far as they can be taken. -/
def follow (s : Shared ι L σ) (net : Carrier (StateM σ) L) :
    List (Choice ι) → List (Event ι L) × Shared ι L σ
  | [] => ([], s)
  | choice :: choices =>
    match s.choose net choice with
    | none => s.follow net choices
    | some (e, s') =>
      let (es, s'') := s'.follow net choices
      (e :: es, s'')

/-- Steps are what can be chosen. -/
theorem step_iff {net : Carrier (StateM σ) L} {s s' : Shared ι L σ} {e : Event ι L} :
    Step net s e s' ↔ ∃ choice, s.choose net choice = some (e, s') := by
  constructor
  · intro h
    cases h with
    | @begins i o hi => exact ⟨.begin i o, by simp [choose, hi]⟩
    | @acts i o a next hi hadmits => exact ⟨.goOn i, by simp [choose, hi, hadmits]⟩
    | @ends i o answer hi => exact ⟨.goOn i, by simp [choose, hi]⟩
  · rintro ⟨choice, h⟩
    cases choice with
    | begin i o =>
      cases hi : s.callers i with
      | idle =>
        simp only [choose, hi] at h
        cases h
        exact .begins o hi
      | busy o' rest => simp [choose, hi] at h
    | goOn i =>
      cases hi : s.callers i with
      | idle => simp [choose, hi] at h
      | busy o rest =>
        cases rest with
        | done answer =>
          simp only [choose, hi] at h
          cases h
          exact .ends hi
        | ask a next =>
          simp only [choose, hi] at h
          split at h
          · next hadmits =>
            cases h
            exact .acts hi hadmits
          · cases h

theorem Steps.head {net : Carrier (StateM σ) L} {s s' s'' : Shared ι L σ} {es : List (Event ι L)}
    {e : Event ι L} (h : Step net s e s') (h' : Steps net s' es s'') :
    Steps net s (e :: es) s'' := by
  induction h' with
  | refl => exact .tail (.refl s) h
  | tail _ step ih => exact ih.tail step

/-- Whatever is chosen, what is followed is a run. -/
theorem steps_follow (net : Carrier (StateM σ) L) (choices : List (Choice ι)) (s : Shared ι L σ) :
    Steps net s (s.follow net choices).1 (s.follow net choices).2 := by
  induction choices generalizing s with
  | nil => exact .refl s
  | cons choice choices ih =>
    unfold follow
    cases h : s.choose net choice with
    | none => exact ih s
    | some x => exact .head (step_iff.mpr ⟨choice, h⟩) (ih x.2)

theorem Steps.append {net : Carrier (StateM σ) L} {s s' s'' : Shared ι L σ}
    {es es' : List (Event ι L)} (h : Steps net s es s') (h' : Steps net s' es' s'') :
    Steps net s (es ++ es') s'' := by
  induction h' with
  | refl => simpa using h
  | tail _ step ih => rw [← List.append_assoc]; exact ih.tail step

/-- The event says what state comes next. -/
theorem Step.functional {net : Carrier (StateM σ) L} {s s₁ s₂ : Shared ι L σ} {e : Event ι L}
    (h₁ : Step net s e s₁) (h₂ : Step net s e s₂) : s₁ = s₂ := by
  cases h₁ with
  | begins o => cases h₂; rfl
  | acts h =>
    cases h₂ with
    | acts h' => rw [h] at h'; cases h'; rfl
  | ends h => cases h₂; rfl

/-- A caller whose routine takes a step can only take that. -/
theorem Step.of_ask {net : Carrier (StateM σ) L} {s s' : Shared ι L σ} {e : Event ι L} {i : ι}
    {o : Operation} {a : Action L} {next : a.Answer → Routine L o.Answer} (h : Step net s e s')
    (he : e.caller = i) (hi : s.callers i = .busy o (.ask a next)) :
    e = .acts i o a (s.answer net a) ∧ s' = s.act net i o a next := by
  cases h with
  | @begins j _ hidle =>
    obtain rfl : j = i := he
    rw [hidle] at hi
    cases hi
  | @acts j _ _ _ hbusy =>
    obtain rfl : j = i := he
    rw [hbusy] at hi
    cases hi
    exact ⟨rfl, rfl⟩
  | @ends j _ _ hbusy =>
    obtain rfl : j = i := he
    rw [hbusy] at hi
    cases hi

/-- A caller whose routine is over can only end it. -/
theorem Step.of_done {net : Carrier (StateM σ) L} {s s' : Shared ι L σ} {e : Event ι L} {i : ι}
    {o : Operation} {answer : o.Answer} (h : Step net s e s') (he : e.caller = i)
    (hi : s.callers i = .busy o (.done answer)) :
    e = .ends i o answer ∧ s' = s.finish i o answer := by
  cases h with
  | @begins j _ hidle =>
    obtain rfl : j = i := he
    rw [hidle] at hi
    cases hi
  | @acts j _ _ _ hbusy =>
    obtain rfl : j = i := he
    rw [hbusy] at hi
    cases hi
  | @ends j _ _ hbusy =>
    obtain rfl : j = i := he
    rw [hbusy] at hi
    cases hi
    exact ⟨rfl, rfl⟩

/-- A caller who does nothing can only begin something. -/
theorem Step.of_idle {net : Carrier (StateM σ) L} {s s' : Shared ι L σ} {e : Event ι L} {i : ι}
    (h : Step net s e s') (he : e.caller = i) (hi : s.callers i = .idle) :
    ∃ o, e = .begins i o := by
  cases h with
  | @begins j o _ =>
    obtain rfl : j = i := he
    exact ⟨o, rfl⟩
  | @acts j _ _ _ hbusy =>
    obtain rfl : j = i := he
    rw [hbusy] at hi
    cases hi
  | @ends j _ _ hbusy =>
    obtain rfl : j = i := he
    rw [hbusy] at hi
    cases hi

/-- A step leaves the other callers where they were. -/
theorem Step.callers_of_ne {net : Carrier (StateM σ) L} {s s' : Shared ι L σ} {e : Event ι L}
    (h : Step net s e s') {j : ι} (hj : j ≠ e.caller) : s'.callers j = s.callers j := by
  cases h with
  | begins | acts => exact if_neg hj
  | ends =>
    unfold finish
    split <;> exact if_neg hj

/-- By which step a caller has come to this rest of its operation. -/
inductive Comes (net : Carrier (StateM σ) L) (s : Shared ι L σ) (i : ι) (o : Operation) :
    Event ι L → Routine L o.Answer → Prop where
  /-- By none of its own. -/
  | other {e : Event ι L} {rest : Routine L o.Answer} :
    i ≠ e.caller → s.callers i = .busy o rest → Comes net s i o e rest
  | begins :
    Comes net s i o (.begins i o) (o.routine s.connection.peer s.connection.config)
  /-- By another round. -/
  | again {answer : o.Answer} :
    s.callers i = .busy o (.done answer) →
    Comes net s i o (.ends i o answer) (o.routine s.connection.peer s.connection.config)
  | acts {a : Action L} {next : a.Answer → Routine L o.Answer} :
    s.callers i = .busy o (.ask a next) → s.Admits a →
    Comes net s i o (.acts i o a (s.answer net a)) (next (s.answer net a))

theorem Step.comes {net : Carrier (StateM σ) L} {s s' : Shared ι L σ} {e : Event ι L} {i : ι}
    {o : Operation} {rest : Routine L o.Answer} (h : Step net s e s')
    (hi : s'.callers i = .busy o rest) : Comes net s i o e rest := by
  by_cases he : i = e.caller
  · cases h with
    | begins o' =>
      obtain rfl : i = _ := he
      rw [callers_start] at hi
      cases hi
      exact .begins
    | acts hbusy hadmits =>
      obtain rfl : i = _ := he
      rw [callers_act] at hi
      cases hi
      exact .acts hbusy hadmits
    | ends hbusy =>
      obtain rfl : i = _ := he
      unfold finish at hi
      split at hi
      · rw [callers_start] at hi
        cases hi
        exact .again hbusy
      · rw [callers_setCaller] at hi
        cases hi
  · exact .other he ((h.callers_of_ne he).symm.trans hi)

/-- A connection stays one to its peer, with its settings. -/
theorem Step.peer {net : Carrier (StateM σ) L} {s s' : Shared ι L σ} {e : Event ι L}
    (h : Step net s e s') :
    s'.connection.peer = s.connection.peer ∧ s'.connection.config = s.connection.config := by
  cases h with
  | begins => exact ⟨rfl, rfl⟩
  | ends =>
    unfold finish
    split <;> exact ⟨rfl, rfl⟩
  | @acts i o a next => cases a <;> exact ⟨rfl, rfl⟩

theorem Steps.peer {net : Carrier (StateM σ) L} {s s' : Shared ι L σ} {es : List (Event ι L)}
    (h : Steps net s es s') :
    s'.connection.peer = s.connection.peer ∧ s'.connection.config = s.connection.config := by
  induction h with
  | refl => exact ⟨rfl, rfl⟩
  | tail _ step ih => exact ⟨step.peer.1.trans ih.1, step.peer.2.trans ih.2⟩

end Shared
end UnionFS.Client
