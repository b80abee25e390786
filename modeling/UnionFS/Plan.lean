/-!
# Plans

A plan is a computation that asks questions and goes on with their answers.  It does not say who
answers: a plan can be run on given answers, on a state that answers and changes, or in any monad.

* `run_bind`: running a plan made of two is running the one and then the other;
* `calls_bind`: and its questions are those of the one and then those of the other.
-/

namespace UnionFS

/-- A computation that asks questions `c`, each answered by an `Answer c`, and ends in an `α`. -/
inductive Plan (Call : Type) (Answer : Call → Type) (α : Type) where
  | done (value : α)
  | ask (call : Call) (next : Answer call → Plan Call Answer α)

namespace Plan

variable {Call : Type} {Answer : Call → Type} {α β γ : Type}

protected def bind : Plan Call Answer α → (α → Plan Call Answer β) → Plan Call Answer β
  | done a, k => k a
  | ask c next, k => ask c fun answer => (next answer).bind k

instance : Monad (Plan Call Answer) where
  pure := done
  bind := Plan.bind

theorem bind_done (p : Plan Call Answer α) : p.bind done = p := by
  induction p <;> simp_all [Plan.bind]

theorem bind_assoc (p : Plan Call Answer α) (f : α → Plan Call Answer β)
    (g : β → Plan Call Answer γ) : (p.bind f).bind g = p.bind fun a => (f a).bind g := by
  induction p <;> simp_all [Plan.bind]

instance : LawfulMonad (Plan Call Answer) :=
  LawfulMonad.mk' _ (fun p => bind_done p) (fun _ _ => rfl) bind_assoc

/-- Ask one question. -/
def question (call : Call) : Plan Call Answer (Answer call) :=
  ask call done

/-- Run a plan in a monad that answers its questions. -/
def run {m : Type → Type} [Monad m] (answer : (c : Call) → m (Answer c)) : Plan Call Answer α → m α
  | done a => pure a
  | ask c next => do (next (← answer c)).run answer

/-- The questions that a plan asks, in order, of a state that answers them and changes. -/
def calls {S : Type} (answer : (c : Call) → S → Answer c × S) : Plan Call Answer α → S → List Call
  | done _, _ => []
  | ask c next, s => c :: (next (answer c s).1).calls answer (answer c s).2

/-- What a plan ends in, of a state that answers its questions and changes. -/
def outcome {S : Type} (answer : (c : Call) → S → Answer c × S) : Plan Call Answer α → S → α × S
  | done a, s => (a, s)
  | ask c next, s => (next (answer c s).1).outcome answer (answer c s).2

theorem run_bind {m : Type → Type} [Monad m] [LawfulMonad m] (answer : (c : Call) → m (Answer c))
    (p : Plan Call Answer α) (k : α → Plan Call Answer β) :
    (p.bind k).run answer = p.run answer >>= fun a => (k a).run answer := by
  induction p with
  | done a => simp [Plan.bind, run]
  | ask c next ih => simp [Plan.bind, run, ih]

theorem outcome_bind {S : Type} (answer : (c : Call) → S → Answer c × S) (p : Plan Call Answer α)
    (k : α → Plan Call Answer β) (s : S) :
    (p.bind k).outcome answer s =
      (k (p.outcome answer s).1).outcome answer (p.outcome answer s).2 := by
  induction p generalizing s with
  | done a => rfl
  | ask c next ih => exact ih _ _

theorem calls_bind {S : Type} (answer : (c : Call) → S → Answer c × S) (p : Plan Call Answer α)
    (k : α → Plan Call Answer β) (s : S) :
    (p.bind k).calls answer s =
      p.calls answer s ++ (k (p.outcome answer s).1).calls answer (p.outcome answer s).2 := by
  induction p generalizing s with
  | done a => rfl
  | ask c next ih => simp only [Plan.bind, calls, outcome, ih, List.cons_append]

/-- Running a plan in the state monad gives its outcome. -/
theorem run_state {S : Type} (answer : (c : Call) → S → Answer c × S) (p : Plan Call Answer α)
    (s : S) :
    (p.run (m := StateM S) fun c s => answer c s) s = p.outcome answer s := by
  induction p generalizing s with
  | done a => rfl
  | ask c next ih => exact ih _ _

end Plan
end UnionFS
