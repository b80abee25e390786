import UnionFS.Proofs.Client.Accounts
import UnionFS.Proofs.Client.Stopping

/-!
# Turns

Requests and heartbeats take the lock first, make one errand and let go of the lock
(`Turn.routine`).  So the errands of a run have an order, that in which the lock was taken
(`turns`), and each caller has a share of what comes of them where they are made one after another
(`share`).
-/

namespace UnionFS.Client

open Connection Routine Shared

variable {ι L σ : Type}

/-- An errand, and what came of it. -/
abbrev Told := (e : Errand) × e.Answer

namespace Operation

/-- Requests and heartbeats use nothing of the connection without the lock. -/
def Serial : Operation → Prop
  | request _ | beat => True
  | connect | stop | keepalive => False

/-- Too long a path is refused, and the lock is not taken for it. -/
def Fits (config : ClientConfig) : Operation → Prop
  | request r => (Utf8.encode r.path).length ≤ config.maxPath.toNat
  | connect | beat | stop | keepalive => True

instance (config : ClientConfig) : (o : Operation) → Decidable (o.Fits config)
  | request r =>
    inferInstanceAs (Decidable ((Utf8.encode r.path).length ≤ config.maxPath.toNat))
  | connect | beat | stop | keepalive => .isTrue trivial

def errand? : Operation → Option Errand
  | connect => some .connect
  | request r => some (.request r)
  | beat => some .beat
  | stop => some .stop
  | keepalive => none

def told? : (o : Operation) → o.Answer → Option Told
  | connect, answer => some ⟨.connect, answer⟩
  | request r, answer => some ⟨.request r, answer⟩
  | beat, answer => some ⟨.beat, answer⟩
  | stop, answer => some ⟨.stop, answer⟩
  | keepalive, _ => none

end Operation

/-- Somebody takes the lock for an errand. -/
def Event.turn? : Event ι L → Option (ι × Errand)
  | .acts i o .acquire _ => o.errand?.map (i, ·)
  | _ => none

/-- Who has taken the lock, and for what. -/
def turns (es : List (Event ι L)) : List (ι × Errand) :=
  es.filterMap Event.turn?

theorem turns_concat (es : List (Event ι L)) (e : Event ι L) :
    turns (es ++ [e]) = turns es ++ e.turn?.toList := by
  rw [turns, List.filterMap_append]
  cases h : e.turn? <;> simp [turns, h]

theorem turn?_of_stays {i : ι} {o : Operation} {a : Action L} {answer : a.Answer} (ha : a.Stays) :
    (Event.acts i o a answer).turn? = none := by
  cases a with
  | acquire => cases ha
  | _ => rfl

section
variable [DecidableEq ι]

/-- A caller is told what came of an errand that it took the lock for. -/
def Event.told? (config : ClientConfig) (i : ι) : Event ι L → Option Told
  | .ends j o answer => if j = i ∧ o.Fits config then o.told? answer else none
  | _ => none

/-- What a caller has been told. -/
def told (config : ClientConfig) (i : ι) (es : List (Event ι L)) : List Told :=
  es.filterMap (Event.told? config i)

theorem told_concat (config : ClientConfig) (i : ι) (es : List (Event ι L)) (e : Event ι L) :
    told config i (es ++ [e]) = told config i es ++ (e.told? config i).toList := by
  rw [told, List.filterMap_append]
  cases h : e.told? config i <;> simp [told, h]

/-- What a caller is told where the errands are made one after another. -/
def share (net : Carrier (StateM σ) L) (c : Connection L) (n : σ) (i : ι)
    (order : List (ι × Errand)) : List Told :=
  ((order.map (·.1)).zip (conduct net (order.map (·.2)) c n)).filterMap fun (j, x) =>
    if j = i then some x else none

theorem share_concat (net : Carrier (StateM σ) L) (c : Connection L) (n : σ) (i j : ι)
    (order : List (ι × Errand)) (e : Errand) :
    share net c n i (order ++ [(j, e)]) =
      share net c n i order ++
        if j = i then
          [⟨e, (e.run net (final net (order.map (·.2)) c n).1
            (final net (order.map (·.2)) c n).2).1.1⟩]
        else [] := by
  have hlength : (order.map (·.1)).length = (conduct net (order.map (·.2)) c n).length := by
    rw [length_conduct, List.length_map, List.length_map]
  unfold share
  rw [List.map_append, List.map_append, List.map_singleton, List.map_singleton, conduct_concat,
    List.zip_append hlength, List.filterMap_append]
  congr 1
  by_cases hji : j = i <;> simp [hji]

end

/-! ## Errands under the lock -/

/-- Steps lead from one state of the connection and of the network to another. -/
inductive Performs (net : Carrier (StateM σ) L) (start : Connection L × σ) :
    Connection L × σ → Prop where
  | refl : Performs net start start
  | tail {c : Connection L} {n : σ} (a : Action L) :
    Performs net start (c, n) →
    Performs net start (((a.perform net c).run n).1.2, ((a.perform net c).run n).2)

/-- The rest of an operation comes to what the errand comes to from another state. -/
structure Finishes (net : Carrier (StateM σ) L) (o : Operation) (rest : Routine L o.Answer)
    (c : Connection L) (n : σ) (e : Errand) (start : Connection L × σ) : Prop where
  told : o.told? (rest.alone net c n).1.1 = some ⟨e, (e.run net start.1 start.2).1.1⟩
  connection : (rest.alone net c n).1.2 = (e.run net start.1 start.2).1.2
  network : (rest.alone net c n).2 = (e.run net start.1 start.2).2

namespace Routine

variable {α : Type}

/-- Let go of the lock and give the answer. -/
def leave (a : α) : Routine L α := do
  release
  return a

/-- What an operation does for an errand while it has the lock. -/
inductive Turn (config : ClientConfig) : (o : Operation) → Errand → Routine L o.Answer → Prop where
  | request (r : Request) : (Operation.request r).Fits config →
    Turn config (.request r) (.request r)
      ((split config.maxIo r).run fun q => transact (exchange config.limits q))
  | beat : Turn config .beat .beat
    ((fun reply => reply.toOption.isSome) <$> transact (do return .ok (← heartbeat)))

variable {config : ClientConfig} {o : Operation} {e : Errand} {p : Routine L o.Answer}

theorem exists_turn (ho : o.Serial) (hfits : o.Fits config) :
    ∃ e, ∃ p : Routine L o.Answer, Turn config o e p := by
  cases o with
  | request r => exact ⟨_, _, .request r hfits⟩
  | beat => exact ⟨_, _, .beat⟩
  | connect | stop | keepalive => cases ho

theorem Turn.errand? (h : Turn config o e p) : o.errand? = some e := by
  cases h with
  | request | beat => rfl

/-- The operation takes the lock, makes its errand and lets go of the lock. -/
theorem Turn.routine (h : Turn config o e p) (peer : Peer) :
    o.routine peer config = acquire >>= fun _ => p >>= leave := by
  cases h with
  | request r hfits =>
    show Routine.request config r = _
    rw [Routine.request, if_neg (Nat.not_lt.mpr hfits)]
    rfl
  | beat =>
    show Routine.beat = _
    simp only [Routine.beat, leave, bind_map_left]

theorem alone_leave (net : Carrier (StateM σ) L) (p : Routine L α) (c : Connection L) :
    (acquire >>= fun _ => p >>= leave).alone net c = p.alone net c := by
  simp [leave]

theorem Turn.finishes (h : Turn config o e p) (net : Carrier (StateM σ) L) {c : Connection L}
    (hc : c.config = config) (n : σ) : Finishes net o p c n e (c, n) := by
  have halone : p.alone net c = (o.routine c.peer c.config).alone net c := by
    rw [hc, h.routine, alone_leave]
  cases h with
  | request r hfits =>
    have hrequest := halone.trans (alone_request net r c)
    refine ⟨?_, ?_, ?_⟩ <;> rw [hrequest] <;> rfl
  | beat =>
    have hbeat := halone.trans (alone_beat net c)
    refine ⟨?_, ?_, ?_⟩ <;> rw [hbeat] <;> rfl

theorem Turn.inside (h : Turn config o e p) (c : Connection L) :
    Inside c (fun _ => Tended c) p c := by
  cases h with
  | request r => exact inside_run (fun q c hc => inside_transact _ hc) _ (tended_refl c)
  | beat => exact (inside_transact _ (tended_refl c)).bind fun _ _ hc => hc

/-- An operation that asks for something has not been refused for its path. -/
theorem fits_of_ask {peer : Peer} {a : Action L} {next : a.Answer → Routine L o.Answer}
    (h : o.routine peer config = .ask a next) : o.Fits config := by
  cases o with
  | connect | beat | stop | keepalive => trivial
  | request r =>
    by_contra hfits
    change Routine.request config r = _ at h
    rw [Routine.request, if_pos (Nat.not_le.mp hfits)] at h
    cases h

theorem not_fits_of_done {peer : Peer} {answer : o.Answer} (ho : o.Serial)
    (h : (o.routine peer config : Routine L _) = .done answer) : ¬ o.Fits config := by
  intro hfits
  obtain ⟨e, p, hturn⟩ := exists_turn (L := L) ho hfits
  rw [hturn.routine] at h
  cases h

/-- A routine that has still to let go of the lock is not over. -/
theorem bind_leave_ne_done {p : Routine L α} {a : α} : p >>= leave ≠ .done a := by
  intro h
  cases p <;> cases h

end Routine

end UnionFS.Client
