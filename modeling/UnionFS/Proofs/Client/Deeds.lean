import UnionFS.Proofs.Client.Lock

/-!
# What a caller does in one operation

The deeds of a caller since it began an operation are a way through the routine of that operation
(`leads_steps`).  So a connect that fails has left the stream of the connection alone, and done
nothing on the network but on a stream that it has opened itself (`aloof_connect`); and a round of
the keepalive loop ends the loop if it finds the connection stopped, and otherwise makes a heartbeat
or an attempt to connect (`lap_keepalive`).
-/

namespace UnionFS.Client

variable {ι L σ α β : Type}

/-- A step that was taken, and what it answered. -/
abbrev Taken (L : Type) := (a : Action L) × a.Answer

/-- The stream that a step uses. -/
def Action.line? : Action L → Option L
  | send line _ | receive line _ | shutdown line | drop line => some line
  | _ => none

/-- The stream that a deed has opened. -/
def Taken.opened : Taken L → List L
  | ⟨.dial _, .ok line⟩ => [line]
  | _ => []

/-- The deeds use only these streams, and those that they have opened before. -/
def Own : List L → List (Taken L) → Prop
  | _, [] => True
  | lines, d :: deeds => (∀ line ∈ d.1.line?, line ∈ lines) ∧ Own (d.opened ++ lines) deeds

/-- The deeds have left the stream of the connection alone, and the word that there is one; on the
network they have used only what they had opened. -/
structure Aloof (net : Carrier (StateM σ) L) (deeds : List (Taken L)) : Prop where
  spared : ∀ d ∈ deeds, ∀ (c : Connection L) (n : σ),
    ((d.1.perform net c).run n).1.2.line = c.line
      ∧ ((d.1.perform net c).run n).1.2.connected = c.connected
  own : Own [] deeds

namespace Routine

/-- The deeds lead from one routine to what is left of it. -/
def Leads : Routine L α → List (Taken L) → Routine L α → Prop
  | r, [], rest => rest = r
  | r, d :: deeds, rest => ∃ next, r = .ask d.1 next ∧ Leads (next d.2) deeds rest

variable {r : Routine L α} {a : Action L} {deeds : List (Taken L)}

theorem Leads.concat {next : a.Answer → Routine L α} (h : Leads r deeds (.ask a next))
    (answer : a.Answer) : Leads r (deeds ++ [⟨a, answer⟩]) (next answer) := by
  induction deeds generalizing r with
  | nil => exact ⟨next, h.symm, rfl⟩
  | cons d deeds ih =>
    obtain ⟨next', hr, hnext⟩ := h
    exact ⟨next', hr, ih hnext⟩

/-- A routine that is over by then has asked nothing. -/
theorem leads_pure {x : α} {rest : Routine L α} (h : Leads (pure x) deeds rest) : deeds = [] := by
  cases deeds with
  | nil => rfl
  | cons d deeds =>
    obtain ⟨next, hnext, -⟩ := h
    cases hnext

theorem leads_act {k : a.Answer → Routine L α} {x : α} (h : Leads (act a >>= k) deeds (.done x)) :
    ∃ answer rest, deeds = ⟨a, answer⟩ :: rest ∧ Leads (k answer) rest (.done x) := by
  cases deeds with
  | nil => cases h
  | cons d deeds =>
    obtain ⟨next, hnext, h⟩ := h
    cases hnext
    exact ⟨d.2, deeds, rfl, h⟩

theorem leads_bind {k : α → Routine L β} {y : β} (h : Leads (r >>= k) deeds (.done y)) :
    ∃ x before after, deeds = before ++ after ∧ Leads r before (.done x)
      ∧ Leads (k x) after (.done y) := by
  change Leads (Plan.bind r k) deeds (.done y) at h
  induction r generalizing deeds with
  | done x => exact ⟨x, [], deeds, rfl, rfl, h⟩
  | ask a next ih =>
    obtain ⟨answer, rest, rfl, hrest⟩ := leads_act h
    obtain ⟨x, before, after, rfl, hbefore, hafter⟩ := ih answer hrest
    exact ⟨x, ⟨a, answer⟩ :: before, after, rfl, ⟨next, rfl, hbefore⟩, hafter⟩

/-- The step is one on a stream, or does nothing but take the lock, look and let go of it. -/
def Beside (line : L) : Action L → Prop
  | .send l _ | .receive l _ | .shutdown l | .drop l => l = line
  | .acquire | .release | .isStopped => True
  | _ => False

theorem beside_converse {line : L} {d : Dialogue Unit α} {e : Except WireError α}
    (h : Leads (carrier.converse line d) deeds (.done e)) : ∀ d ∈ deeds, Beside line d.1 := by
  induction d generalizing deeds with
  | done a | fail e =>
    rw [leads_pure h]
    nofun
  | consult d ih => exact ih () h
  | commit s d ih => exact ih h
  | send bytes d ih =>
    rw [Carrier.converse] at h
    obtain ⟨answer, rest, rfl, hrest⟩ := leads_act h
    refine List.forall_mem_cons.mpr ⟨rfl, ?_⟩
    cases answer with
    | ok => exact ih hrest
    | error e =>
      rw [leads_pure hrest]
      nofun
  | receive count d ih =>
    rw [Carrier.converse] at h
    obtain ⟨answer, rest, rfl, hrest⟩ := leads_act h
    refine List.forall_mem_cons.mpr ⟨rfl, ?_⟩
    cases answer with
    | ok bytes => exact ih bytes hrest
    | error e =>
      rw [leads_pure hrest]
      nofun

/-- A connect that fails does so before it dials, or because it cannot, or on the stream it has got
by that. -/
inductive Fails (address : String) : List (Taken L) → Prop where
  | stopped : Fails address [⟨.isStopped, true⟩]
  | unreached (failure : DialFailure) :
    Fails address [⟨.isStopped, false⟩, ⟨.dial address, .error failure⟩]
  | refused {line : L} {deeds : List (Taken L)} :
    (∀ d ∈ deeds, Beside line d.1) →
    Fails address (⟨.isStopped, false⟩ :: ⟨.dial address, .ok line⟩ :: deeds)

/-- Once the stream is stored a connect cannot fail. -/
theorem not_fails_stored {cause : ConnectionError}
    (h : Leads (do setConnected true; release; return (.ok () : Except ConnectionError Unit))
      deeds (.done (.error cause))) : False := by
  obtain ⟨_, rest, rfl, h₁⟩ := leads_act h
  obtain ⟨_, rest, rfl, h₂⟩ := leads_act h₁
  obtain rfl := leads_pure h₂
  cases h₂

theorem fails_connect {peer : Peer} {cause : ConnectionError}
    (h : Leads (connect peer) deeds (.done (.error cause))) : Fails peer.address deeds := by
  unfold connect at h
  obtain ⟨stopped, rest, rfl, hdial⟩ := leads_act h
  cases stopped with
  | true =>
    rw [leads_pure hdial]
    exact .stopped
  | false =>
  obtain ⟨dialled, rest, rfl, hdialled⟩ := leads_act hdial
  cases dialled with
  | error failure =>
    cases failure with
    | timeout | refused =>
      rw [leads_pure hdialled]
      exact .unreached _
  | ok line =>
  refine .refused ?_
  obtain ⟨outcome, before, after, rfl, hbefore, hafter⟩ := leads_bind hdialled
  refine List.forall_mem_append.mpr ⟨beside_converse hbefore, ?_⟩
  cases outcome with
  | error e =>
    obtain ⟨_, rest, rfl, h₁⟩ := leads_act hafter
    rw [leads_pure h₁]
    simp [Beside]
  | ok outcome =>
  cases outcome with
  | rejected reason =>
    obtain ⟨_, rest, rfl, h₁⟩ := leads_act hafter
    obtain ⟨_, rest, rfl, h₂⟩ := leads_act h₁
    rw [leads_pure h₂]
    simp [Beside]
  | accepted =>
  obtain ⟨_, rest, rfl, h₁⟩ := leads_act hafter
  obtain ⟨stopped, rest, rfl, h₂⟩ := leads_act h₁
  cases stopped with
  | true =>
    obtain ⟨_, rest, rfl, h₃⟩ := leads_act h₂
    obtain ⟨_, rest, rfl, h₄⟩ := leads_act h₃
    obtain ⟨_, rest, rfl, h₅⟩ := leads_act h₄
    rw [leads_pure h₅]
    simp [Beside]
  | false =>
  obtain ⟨old, rest, rfl, h₃⟩ := leads_act h₂
  cases old with
  | none =>
    obtain ⟨_, rest, rfl, h₄⟩ := leads_act h₃
    exact (not_fails_stored h₄).elim
  | some old =>
    obtain ⟨_, rest, rfl, h₄⟩ := leads_act h₃
    obtain ⟨_, rest, rfl, h₅⟩ := leads_act h₄
    exact (not_fails_stored h₅).elim

theorem own_of_beside {line : L} {lines : List L} (hline : line ∈ lines)
    (h : ∀ d ∈ deeds, Beside line d.1) : Own lines deeds := by
  induction deeds generalizing lines with
  | nil => trivial
  | cons d deeds ih =>
    obtain ⟨hd, hdeeds⟩ := List.forall_mem_cons.mp h
    refine ⟨fun l hl => ?_, ih (List.mem_append_right _ hline) hdeeds⟩
    obtain ⟨a, answer⟩ := d
    cases a with
    | send | receive | shutdown | drop =>
      obtain rfl := Option.mem_some.mp hl
      obtain rfl : _ = line := hd
      exact hline
    | _ => cases hl

theorem Fails.aloof {address : String} (h : Fails address deeds) (net : Carrier (StateM σ) L) :
    Aloof net deeds := by
  have hbeside {line : L} {a : Action L} (ha : Beside line a) (c : Connection L) (n : σ) :
      ((a.perform net c).run n).1.2 = c := by
    cases a with
    | isConnected | markStopped | stored | store | setConnected | dial => cases ha
    | _ => rfl
  cases h with
  | stopped => exact ⟨List.forall_mem_singleton.mpr fun _ _ => ⟨rfl, rfl⟩, nofun, trivial⟩
  | unreached failure =>
    refine ⟨List.forall_mem_cons.mpr ⟨fun _ _ => ⟨rfl, rfl⟩, ?_⟩, nofun, nofun, trivial⟩
    exact List.forall_mem_singleton.mpr fun _ _ => ⟨rfl, rfl⟩
  | @refused line deeds hdeeds =>
    refine ⟨List.forall_mem_cons.mpr ⟨fun _ _ => ⟨rfl, rfl⟩,
      List.forall_mem_cons.mpr ⟨fun _ _ => ⟨rfl, rfl⟩, fun d hd c n => ?_⟩⟩, nofun, nofun, ?_⟩
    · rw [hbeside (hdeeds d hd) c n]
      exact ⟨rfl, rfl⟩
    · exact own_of_beside List.mem_cons_self hdeeds

/-- What a round of the keepalive loop has done, and whether the loop goes on. -/
inductive Lap (net : Carrier (StateM σ) L) (peer : Peer) : List (Taken L) → Bool → Prop where
  /-- The connection was found stopped. -/
  | ended : Lap net peer [⟨.isStopped, true⟩] false
  | beaten {deeds : List (Taken L)} {answered : Bool} :
    Leads beat deeds (.done answered) →
    Lap net peer (⟨.isStopped, false⟩ :: ⟨.isConnected, true⟩ :: deeds) true
  | connected {deeds : List (Taken L)} :
    Leads (connect peer) deeds (.done (.ok ())) →
    Lap net peer (⟨.isStopped, false⟩ :: ⟨.isConnected, false⟩ :: deeds) true
  | failed {deeds : List (Taken L)} {cause : ConnectionError} :
    Leads (connect peer) deeds (.done (.error cause)) → Aloof net deeds →
    Lap net peer (⟨.isStopped, false⟩ :: ⟨.isConnected, false⟩ :: deeds) true

theorem lap_keepalive {peer : Peer} {goesOn : Bool}
    (h : Leads (keepalive peer) deeds (.done goesOn)) (net : Carrier (StateM σ) L) :
    Lap net peer deeds goesOn := by
  obtain ⟨stopped, rest, rfl, h₁⟩ := leads_act h
  cases stopped with
  | true =>
    obtain rfl := leads_pure h₁
    cases h₁
    exact .ended
  | false =>
  obtain ⟨connected, rest, rfl, h₂⟩ := leads_act h₁
  cases connected with
  | true =>
    obtain ⟨answered, before, after, rfl, hbefore, hafter⟩ := leads_bind h₂
    obtain rfl := leads_pure hafter
    cases hafter
    rw [List.append_nil]
    exact .beaten hbefore
  | false =>
    obtain ⟨outcome, before, after, rfl, hbefore, hafter⟩ := leads_bind h₂
    obtain rfl := leads_pure hafter
    cases hafter
    rw [List.append_nil]
    cases outcome with
    | error cause => exact .failed hbefore ((fails_connect hbefore).aloof net)
    | ok => exact .connected hbefore

end Routine

/-! ## Deeds in a run -/

namespace Shared

open Routine

variable [DecidableEq ι]

/-- The deeds of a caller after an event, from those before it. -/
def deedsAfter (i : ι) (deeds : List (Taken L)) : Event ι L → List (Taken L)
  | .begins j _ | .ends j _ _ => if j = i then [] else deeds
  | .acts j _ a answer => if j = i then deeds ++ [⟨a, answer⟩] else deeds

/-- What a caller has done since it last began or ended something. -/
def deeds (i : ι) (es : List (Event ι L)) : List (Taken L) :=
  es.foldl (deedsAfter i) []

variable {net : Carrier (StateM σ) L} {s s' : Shared ι L σ} {es : List (Event ι L)} {e : Event ι L}
  {i j : ι}

theorem deeds_concat : deeds i (es ++ [e]) = deedsAfter i (deeds i es) e :=
  List.foldl_append

theorem deedsAfter_of_ne {ds : List (Taken L)} (hi : i ≠ e.caller) : deedsAfter i ds e = ds := by
  cases e with
  | begins | acts | ends => exact if_neg (Ne.symm hi)

/-- **What a caller has done is a way through the routine of its operation.** -/
theorem leads_steps (hidle : s.callers i = .idle) (run : Steps net s es s') :
    ∀ o rest, s'.callers i = .busy o rest →
      Leads (o.routine s.connection.peer s.connection.config) (deeds i es) rest := by
  induction run with
  | refl =>
    intro o rest hrest
    rw [hidle] at hrest
    cases hrest
  | @tail s₁ s₂ es e before step ih =>
    intro o rest hrest
    rw [deeds_concat]
    obtain ⟨hpeer, hconfig⟩ := before.peer
    cases step.comes hrest with
    | other hne hbusy =>
      rw [deedsAfter_of_ne hne]
      exact ih o rest hbusy
    | begins | again =>
      rw [deedsAfter, if_pos rfl, hpeer, hconfig]
      rfl
    | acts hbusy =>
      rw [deedsAfter, if_pos rfl]
      exact (ih _ _ hbusy).concat _

end Shared
end UnionFS.Client
