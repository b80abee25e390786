import UnionFS.Client.Carrier

/-!
# Faults

A network whose streams fail.  Steps on its streams are counted, and a plan of faults says which of
them fail, and how.  A step that fails has no effect of its own, but what came before it stays done:
so that a request may have been carried out although its reply never arrives.

* `converse_faultless`: without faults nothing changes.
-/

namespace UnionFS.Client

/-- Which steps fail, counted from zero. -/
abbrev FaultPlan := Nat → Option WireError

namespace Carrier

variable {m : Type → Type} [Monad m] {L α : Type}

/-- A step that fails if the plan says so. -/
def unlessFaulty (plan : FaultPlan) (step : m (Except WireError α)) :
    StateT Nat m (Except WireError α) := fun count =>
  match plan count with
  | some e => return (.error e, count + 1)
  | none => (·, count + 1) <$> step

/-- The same network with faults. -/
def faulty (net : Carrier m L) (plan : FaultPlan) : Carrier (StateT Nat m) L where
  dial address := fun count => (·, count) <$> net.dial address
  send line bytes := unlessFaulty plan (net.send line bytes)
  receive line count := unlessFaulty plan (net.receive line count)
  shutdown line := unlessFaulty plan (net.shutdown line)
  drop line := fun count => (·, count) <$> net.drop line

/-- Running on a network without faults only counts the steps. -/
theorem converse_faultless [LawfulMonad m] (net : Carrier m L) (line : L) (d : Dialogue Unit α)
    (count : Nat) :
    Prod.fst <$> ((net.faulty fun _ => none).converse line d).run count = net.converse line d := by
  have send_run (b : Bytes) (n : Nat) : ((net.faulty fun _ => none).send line b).run n =
      (·, n + 1) <$> net.send line b := rfl
  have receive_run (k n : Nat) : ((net.faulty fun _ => none).receive line k).run n =
      (·, n + 1) <$> net.receive line k := rfl
  induction d generalizing count with
  | done | fail => simp [converse]
  | send b d ih =>
    simp only [converse, StateT.run_bind, send_run, bind_map_left, map_bind]
    exact bind_congr fun r => by cases r <;> simp [ih]
  | receive n d ih =>
    simp only [converse, StateT.run_bind, receive_run, bind_map_left, map_bind]
    exact bind_congr fun r => by cases r <;> simp [ih]
  | consult d ih => exact ih () count
  | commit s d ih => exact ih count

end Carrier
end UnionFS.Client
