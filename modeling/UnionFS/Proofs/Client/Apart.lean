import Mathlib.Logic.Function.Basic
import UnionFS.Client.Fleet
import UnionFS.Proofs.Client.Streams

/-!
# Streams apart

Many streams of which none has to do with another: each has a state of its own, and what is done on
one stream neither depends on the states of the others nor changes them.  So a connection can be
followed as if its stream were the only one (`request_apart`).
-/

namespace UnionFS.Client

variable {m : Type → Type} [Monad m] {L S α β : Type}

/-! ## What a connection keeps -/

namespace Connection

variable {c c' c'' : Connection L} {l : L}

/-- The connection has no stream but this one. -/
def Holds (c : Connection L) (l : L) : Prop := ∀ l', c.line = some l' → l' = l

/-- The same connection, perhaps without its stream. -/
structure Keeps (c c' : Connection L) : Prop where
  peer : c'.peer = c.peer
  line : c'.line = c.line ∨ c'.line = none

theorem Keeps.refl (c : Connection L) : c.Keeps c := ⟨rfl, .inl rfl⟩

theorem Keeps.trans (h : c.Keeps c') (h' : c'.Keeps c'') : c.Keeps c'' := by
  refine ⟨h'.peer.trans h.peer, ?_⟩
  rcases h'.line with hl | hl
  · rcases h.line with hk | hk
    · exact .inl (hl.trans hk)
    · exact .inr (hl.trans hk)
  · exact .inr hl

theorem Keeps.holds (h : c.Keeps c') (hc : c.Holds l) : c'.Holds l := by
  intro l' hl'
  rcases h.line with hl | hl
  · exact hc l' (hl ▸ hl')
  · rw [hl] at hl'
    cases hl'

theorem keeps_transact (net : Carrier (StateM S) L) (c : Connection L)
    (d : Dialogue Unit (Outcome α)) (s : S) : c.Keeps (c.transact net d s).1.2 := by
  cases hline : c.line with
  | none =>
      rw [transact_none hline]
      exact .refl c
  | some l =>
      rw [transact_eq hline]
      -- only a stream that has failed is let go of
      rcases net.converse l d s with ⟨_ | _, s'⟩
      · exact ⟨rfl, .inr rfl⟩
      · exact .refl c

/-- One exchange of a connection. -/
def single (net : Carrier m L) (limits : Limits) (r : Request) :
    StateT (Connection L) m (Outcome r.Answer) := fun c =>
  c.transact net (exchange limits r)

/-- A request is its exchanges. -/
theorem request_eq (net : Carrier m L) (c : Connection L) (r : Request) :
    c.request net r =
      if c.config.maxPath.toNat < (Utf8.encode r.path).length then
        pure (.error .nameTooLong, c)
      else (split c.config.maxIo r).run (single net c.config.limits) c := by
  rw [request]
  split <;> rfl

theorem request_of_short (net : Carrier m L) {c : Connection L} {r : Request}
    (h : (Utf8.encode r.path).length ≤ c.config.maxPath.toNat) :
    c.request net r = (split c.config.maxIo r).run (single net c.config.limits) c := by
  rw [request_eq, if_neg (Nat.not_lt.mpr h)]

theorem run_ask (net : Carrier (StateM S) L) (limits : Limits) (q : Request)
    (next : Outcome q.Answer → Exchanges α) (c : Connection L) (s : S) :
    (Plan.ask q next : Exchanges α).run (single net limits) c s =
      (let x := c.transact net (exchange limits q) s
       (next x.1.1).run (single net limits) x.1.2 x.2) := rfl

theorem keeps_run (net : Carrier (StateM S) L) (limits : Limits) (p : Exchanges α)
    (c : Connection L) (s : S) : c.Keeps (p.run (single net limits) c s).1.2 := by
  induction p generalizing c s with
  | done a => exact .refl c
  | ask q next ih => exact (keeps_transact net c _ s).trans (ih _ _ _)

theorem keeps_request (net : Carrier (StateM S) L) (c : Connection L) (r : Request) (s : S) :
    c.Keeps (c.request net r s).1.2 := by
  rw [request_eq]
  split
  · exact .refl c
  · exact keeps_run net c.config.limits _ c s

end Connection

/-! ## One stream of many -/

variable [DecidableEq L]

/-- A step on one of many states. -/
def onOne (l : L) (step : StateM S α) : StateM (L → S) α := fun states =>
  ((step (states l)).1, Function.update states l (step (states l)).2)

theorem onOne_pure (l : L) (a : α) : onOne l (pure a : StateM S α) = pure a := by
  funext states
  exact congrArg (Prod.mk a) (Function.update_eq_self l states)

theorem onOne_bind (l : L) (x : StateM S α) (f : α → StateM S β) :
    onOne l (x >>= f) = onOne l x >>= fun a => onOne l (f a) := by
  funext states
  let s := (x (states l)).2
  show (_, Function.update states l (f (x (states l)).1 s).2) =
    ((f (x (states l)).1 (Function.update states l s l)).1,
      Function.update (Function.update states l s) l
        (f (x (states l)).1 (Function.update states l s l)).2)
  rw [Function.update_self, Function.update_idem]
  rfl

namespace Carrier

/-- The streams of a carrier, each with a state of its own.  No others are opened. -/
def apart (net : Carrier (StateM S) L) : Carrier (StateM (L → S)) L where
  dial _ := pure (.error .timeout)
  send l bytes := onOne l (net.send l bytes)
  receive l count := onOne l (net.receive l count)
  shutdown l := onOne l (net.shutdown l)
  drop l := onOne l (net.drop l)

theorem converse_apart (net : Carrier (StateM S) L) (l : L) (d : Dialogue Unit α) :
    net.apart.converse l d = onOne l (net.converse l d) := by
  induction d with
  | done a => exact (onOne_pure l _).symm
  | fail e => exact (onOne_pure l _).symm
  | send b d ih =>
    -- the first step is one on this stream, and what follows it only sees how that went
    rw [converse, converse, onOne_bind]
    refine bind_congr fun r => ?_
    cases r with
    | ok _ => exact ih
    | error e => exact (onOne_pure l _).symm
  | receive n d ih =>
    rw [converse, converse, onOne_bind]
    refine bind_congr fun r => ?_
    cases r with
    | ok bytes => exact ih bytes
    | error e => exact (onOne_pure l _).symm
  | consult d ih => exact ih ()
  | commit s d ih => exact ih

end Carrier

namespace Connection

variable {net : Carrier (StateM S) L} {c : Connection L} {l : L}

theorem transact_apart (h : c.Holds l) (d : Dialogue Unit (Outcome α)) :
    c.transact net.apart d = onOne l (c.transact net d) := by
  rw [transact, transact]
  cases hline : c.line with
  | none => exact (onOne_pure l _).symm
  | some l' =>
      obtain rfl := h l' hline
      dsimp only
      rw [onOne_bind, Carrier.converse_apart]
      refine bind_congr fun r => ?_
      cases r with
      | ok reply => exact (onOne_pure l' _).symm
      | error e =>
          dsimp only
          rw [onOne_bind]
          exact bind_congr fun _ => (onOne_pure l' _).symm

theorem run_apart (h : c.Holds l) (limits : Limits) (p : Exchanges α) (states : L → S) :
    p.run (single net.apart limits) c states =
      onOne l (p.run (single net limits) c) states := by
  induction p generalizing c states with
  | done a => exact (congrFun (onOne_pure l (a, c)) states).symm
  | ask q next ih =>
    -- what is asked next depends on the answer, and goes to what is left of the connection
    let step := c.transact net (exchange limits q) (states l)
    have hkeeps : step.1.2.Holds l := (keeps_transact net c _ (states l)).holds h
    have hstep : c.transact net.apart (exchange limits q) states =
        (step.1, Function.update states l step.2) := by rw [transact_apart h]; rfl
    rw [run_ask, hstep]
    dsimp only
    rw [ih _ hkeeps, onOne, Function.update_self, Function.update_idem]
    rfl

/-- **A connection is followed as if its stream were the only one.** -/
theorem request_apart (h : c.Holds l) (r : Request) (states : L → S) :
    c.request net.apart r states = onOne l (c.request net r) states := by
  rw [request_eq, request_eq]
  split
  · exact (congrFun (onOne_pure l _) states).symm
  · exact run_apart h c.config.limits _ states

end Connection
end UnionFS.Client
