import UnionFS.Client.Shared

/-!
# What routines do with the lock

A routine touches the stream of its connection only while it has the lock, and what it leaves is as
good as what it found (`locks_routine`).  This is said of a routine by itself, for whatever the
network answers, and although anybody may mark the connection as stopped without having the lock:
`Gives` is what a step comes to then.
-/

namespace UnionFS.Client

variable {L α β : Type}

namespace Connection

/-- The connection after somebody has marked it as stopped. -/
def marked (c : Connection L) : Connection L :=
  { c with stopped := true }

/-- Stopped, and without a stream. -/
structure Shut (c : Connection L) : Prop where
  stopped : c.stopped = true
  line : c.line = none
  connected : c.connected = false

theorem Shut.marked {c : Connection L} (h : c.Shut) : c.marked.Shut :=
  ⟨rfl, h.line, h.connected⟩

theorem Consistent.marked {c : Connection L} (h : c.Consistent) : c.marked.Consistent := h

/-- A connection that was found shut is still shut. -/
def Spared (found now : Connection L) : Prop :=
  found.Shut → now.Shut

/-- A connection that was found consistent is left so. -/
def Left (found now : Connection L) : Prop :=
  found.Consistent → now.Consistent

/-- The connection is no worse than it was found. -/
structure Tended (found now : Connection L) : Prop where
  spared : Spared found now
  left : Left found now

theorem tended_refl (c : Connection L) : Tended c c :=
  ⟨id, id⟩

end Connection

namespace Action

/-- A step that neither takes the lock nor lets go of it. -/
def Stays : Action L → Prop
  | acquire | release => False
  | _ => True

/-- A step that can be taken without the lock. -/
def Free : Action L → Prop
  | acquire | release | stored | store _ | setConnected _ => False
  | _ => True

/-- What a step may answer, and what connection it may leave.  Whoever looks whether the connection
is stopped may find that it has just been marked. -/
def Gives (c : Connection L) : (a : Action L) → a.Answer → Connection L → Prop
  | isConnected, connected, c' => connected = c.connected ∧ c' = c
  | isStopped, stopped, c' => (c.stopped = true → stopped = true) ∧ c' = { c with stopped }
  | markStopped, _, c' => c' = c.marked
  | stored, line, c' => line = c.line ∧ c' = c
  | store line, _, c' => c' = { c with line }
  | setConnected connected, _, c' => c' = { c with connected }
  | acquire, _, c' | release, _, c' | dial _, _, c' | send _ _, _, c' | receive _ _, _, c'
  | shutdown _, _, c' | drop _, _, c' => c' = c

variable {c c' : Connection L}

theorem gives_perform {σ : Type} (net : Carrier (StateM σ) L) (a : Action L) (c : Connection L)
    (n : σ) : a.Gives c ((a.perform net c).run n).1.1 ((a.perform net c).run n).1.2 := by
  cases a with
  | isConnected | stored => exact ⟨rfl, rfl⟩
  | isStopped => exact ⟨id, rfl⟩
  | _ => rfl

/-- Without the lock a connection can only be marked. -/
theorem Gives.of_free {a : Action L} {answer : a.Answer} (h : a.Gives c answer c')
    (ha : a.Free) : c' = c ∨ c' = c.marked := by
  cases a with
  | isStopped =>
    obtain ⟨hanswer, rfl⟩ := h
    cases answer with
    | true => exact .inr rfl
    | false =>
      have hstopped : c.stopped = false := by
        cases hc : c.stopped with
        | false => rfl
        | true => exact absurd (hanswer hc) Bool.false_ne_true
      exact .inl (by rw [← hstopped])
  | isConnected => exact .inl h.2
  | markStopped => exact .inr h
  | acquire | release | stored | store | setConnected => cases ha
  | _ => exact .inl h

/-- What can come of a step on a marked connection can come of it before the connection is marked.
-/
theorem Gives.of_marked {a : Action L} {answer : a.Answer} (h : a.Gives c.marked answer c') :
    ∃ c'', a.Gives c answer c'' ∧ (c' = c'' ∨ c' = c''.marked) := by
  cases a with
  | isStopped =>
    obtain ⟨hanswer, rfl⟩ := h
    exact ⟨_, ⟨fun _ => hanswer rfl, rfl⟩, .inl rfl⟩
  | isConnected | stored =>
    obtain ⟨rfl, rfl⟩ := h
    exact ⟨c, ⟨rfl, rfl⟩, .inr rfl⟩
  | store | setConnected =>
    obtain rfl := h
    exact ⟨_, rfl, .inr rfl⟩
  | markStopped =>
    obtain rfl := h
    exact ⟨c.marked, rfl, .inl rfl⟩
  | _ =>
    obtain rfl := h
    exact ⟨c, rfl, .inr rfl⟩

end Action

open Connection

namespace Routine

/-- The routine keeps the lock until it ends, and what is true then. -/
def Inside (found : Connection L) (P : α → Connection L → Prop) :
    Routine L α → Connection L → Prop
  | .done a, c => P a c
  | .ask a next, c =>
    Spared found c ∧ a.Stays
      ∧ ∀ answer c', a.Gives c answer c' → Inside found P (next answer) c'

/-- What a routine does with the lock.  `hold` is the connection as it was when the routine took the
lock, and as it is, while the routine has the lock; `R` is what it has come to when it lets go. -/
def Locks (R : Connection L → Connection L → Prop) :
    Routine L α → (hold : Option (Connection L × Connection L)) → Prop
  | .done _, hold => hold = none
  | .ask a next, none =>
    (a = .acquire → ∀ answer c, Locks R (next answer) (some (c, c)))
      ∧ (a ≠ .acquire → a.Free ∧ ∀ answer, Locks R (next answer) none)
  | .ask a next, some (found, c) =>
    Spared found c ∧ a ≠ .acquire
      ∧ (a = .release → R found c ∧ ∀ answer, Locks R (next answer) none)
      ∧ (a ≠ .release →
        ∀ answer c', a.Gives c answer c' → Locks R (next answer) (some (found, c')))

variable {R : Connection L → Connection L → Prop} {found c : Connection L}

/-! ## One step -/

theorem locks_aside {a : Action L} {k : a.Answer → Routine L α} (ha : a.Free)
    (hk : ∀ answer, Locks R (k answer) none) : Locks R (act a >>= k) none := by
  refine ⟨fun hacquire => ?_, fun _ => ⟨ha, hk⟩⟩
  rw [hacquire] at ha
  cases ha

theorem locks_acquire {k : Unit → Routine L α} (hk : ∀ c, Locks R (k ()) (some (c, c))) :
    Locks R (acquire >>= k) none :=
  ⟨fun _ _ c => hk c, fun ha => absurd rfl ha⟩

theorem locks_within {a : Action L} {k : a.Answer → Routine L α} (hspared : Spared found c)
    (ha : a.Stays) (hk : ∀ answer c', a.Gives c answer c' → Locks R (k answer) (some (found, c'))) :
    Locks R (act a >>= k) (some (found, c)) := by
  refine ⟨hspared, fun hacquire => ?_, fun hrelease => ?_, fun _ => hk⟩
  · rw [hacquire] at ha
    cases ha
  · rw [hrelease] at ha
    cases ha

theorem locks_release {k : Unit → Routine L α} (hspared : Spared found c) (hR : R found c)
    (hk : Locks R (k ()) none) : Locks R (release >>= k) (some (found, c)) := by
  refine ⟨hspared, fun hacquire => ?_, fun _ => ⟨hR, fun _ => hk⟩, fun ha => absurd rfl ha⟩
  cases hacquire

theorem inside_act {P : α → Connection L → Prop} {a : Action L} {k : a.Answer → Routine L α}
    (hspared : Spared found c) (ha : a.Stays)
    (hk : ∀ answer c', a.Gives c answer c' → Inside found P (k answer) c') :
    Inside found P (act a >>= k) c :=
  ⟨hspared, ha, hk⟩

/-! ## One routine after another -/

theorem locks_bind {r : Routine L α} {k : α → Routine L β}
    {hold : Option (Connection L × Connection L)} (h : Locks R r hold)
    (hk : ∀ a, Locks R (k a) none) : Locks R (r >>= k) hold := by
  change Locks R (Plan.bind r k) hold
  induction r generalizing hold with
  | done a =>
    obtain rfl : hold = none := h
    exact hk a
  | ask a next ih =>
    cases hold with
    | none => exact ⟨fun ha answer c => ih _ (h.1 ha answer c),
        fun ha => ⟨(h.2 ha).1, fun answer => ih _ ((h.2 ha).2 answer)⟩⟩
    | some pair => exact ⟨h.1, h.2.1,
        fun ha => ⟨(h.2.2.1 ha).1, fun answer => ih _ ((h.2.2.1 ha).2 answer)⟩,
        fun ha answer c' hc' => ih _ (h.2.2.2 ha answer c' hc')⟩

theorem Inside.locks_bind {P : α → Connection L → Prop} {r : Routine L α} {k : α → Routine L β}
    (h : Inside found P r c) (hk : ∀ a c, P a c → Locks R (k a) (some (found, c))) :
    Locks R (r >>= k) (some (found, c)) := by
  change Locks R (Plan.bind r k) _
  induction r generalizing c with
  | done a => exact hk a c h
  | ask a next ih =>
    obtain ⟨hspared, hstays, hnext⟩ := h
    exact locks_within hspared hstays fun answer c' hc' => ih answer (hnext answer c' hc')

theorem Inside.bind {P : α → Connection L → Prop} {Q : β → Connection L → Prop}
    {r : Routine L α} {k : α → Routine L β} (h : Inside found P r c)
    (hk : ∀ a c, P a c → Inside found Q (k a) c) : Inside found Q (r >>= k) c := by
  change Inside found Q (Plan.bind r k) c
  induction r generalizing c with
  | done a => exact hk a c h
  | ask a next ih =>
    obtain ⟨hspared, hstays, hnext⟩ := h
    exact ⟨hspared, hstays, fun answer c' hc' => ih answer (hnext answer c' hc')⟩

/-- Somebody marks the connection while the routine has the lock. -/
theorem Locks.marked {r : Routine L α} (h : Locks R r (some (found, c)))
    (hR : ∀ c, R found c → R found c.marked) : Locks R r (some (found, c.marked)) := by
  induction r generalizing c with
  | done a => cases h
  | ask a next ih =>
    obtain ⟨hspared, hacquire, hrelease, hnext⟩ := h
    refine ⟨fun hfound => (hspared hfound).marked, hacquire, fun ha => ?_,
      fun ha answer c' hc' => ?_⟩
    · exact ⟨hR _ (hrelease ha).1, (hrelease ha).2⟩
    · -- The mark might as well come after this step.
      obtain ⟨c'', hgives, rfl | rfl⟩ := hc'.of_marked
      · exact hnext ha answer _ hgives
      · exact ih answer (hnext ha answer _ hgives)

/-! ## Dialogues and exchanges -/

theorem locks_converse (line : L) (d : Dialogue Unit α) :
    Locks R (carrier.converse line d) none := by
  induction d with
  | done a | fail e => rfl
  | consult d ih => exact ih ()
  | commit s d ih => exact ih
  | send bytes d ih =>
    rw [Carrier.converse]
    refine locks_aside trivial fun answer => ?_
    cases answer with
    | ok => exact ih
    | error e => rfl
  | receive count d ih =>
    rw [Carrier.converse]
    refine locks_aside trivial fun answer => ?_
    cases answer with
    | ok bytes => exact ih bytes
    | error e => rfl

theorem inside_converse {P : Except WireError α → Connection L → Prop} (line : L)
    (d : Dialogue Unit α) (hspared : Spared found c) (hP : ∀ e, P e c) :
    Inside found P (carrier.converse line d) c := by
  induction d with
  | done a | fail e => exact hP _
  | consult d ih => exact ih ()
  | commit s d ih => exact ih
  | send bytes d ih =>
    rw [Carrier.converse]
    refine inside_act hspared trivial fun answer c' hc' => ?_
    obtain rfl := hc'
    cases answer with
    | ok => exact ih
    | error e => exact hP _
  | receive count d ih =>
    rw [Carrier.converse]
    refine inside_act hspared trivial fun answer c' hc' => ?_
    obtain rfl := hc'
    cases answer with
    | ok bytes => exact ih bytes
    | error e => exact hP _

/-- An exchange lets go of the stream and says so, or leaves it. -/
theorem inside_transact (d : Dialogue Unit (Outcome α)) (h : Tended found c) :
    Inside found (fun _ => Tended found) (transact d) c := by
  unfold transact
  refine inside_act h.spared trivial fun line c' hc' => ?_
  obtain ⟨rfl, rfl⟩ := hc'
  cases hline : c'.line with
  | none => exact h
  | some line =>
    -- There is a stream, so the connection was not shut when the lock was taken.
    have hopen : ¬ found.Shut := by
      intro hshut
      have hnone := (h.spared hshut).line
      rw [hline] at hnone
      cases hnone
    have hspared (now : Connection L) : Spared found now := fun hshut => absurd hshut hopen
    refine Inside.bind (P := fun _ => (· = c')) (inside_converse line d h.spared fun _ => rfl)
      fun answer c hc => ?_
    obtain rfl := hc
    cases answer with
    | ok reply => exact h
    | error e =>
      refine inside_act (hspared _) trivial fun _ c₁ hc₁ => ?_
      refine inside_act (hspared _) trivial fun _ c₂ hc₂ => ?_
      refine inside_act (hspared _) trivial fun _ c₃ hc₃ => ?_
      obtain rfl := hc₁
      obtain rfl := hc₂
      obtain rfl := hc₃
      exact ⟨hspared _, fun _ => consistent_lost _⟩

theorem inside_run {Call : Type} {Answer : Call → Type} {f : (q : Call) → Routine L (Answer q)}
    {I : Connection L → Prop} (hf : ∀ q c, I c → Inside found (fun _ => I) (f q) c)
    (p : Plan Call Answer α) (hc : I c) : Inside found (fun _ => I) (p.run f) c := by
  induction p generalizing c with
  | done a => exact hc
  | ask q next ih => exact (hf q c hc).bind fun answer c' hc' => ih answer hc'

/-! ## The operations -/

section
variable (hR : ∀ {found c : Connection L}, Left found c → R found c)
include hR

theorem locks_request (config : ClientConfig) (r : Request) :
    Locks R (request config r : Routine L _) none := by
  unfold request
  split
  · rfl
  · refine locks_acquire fun found => ?_
    refine (inside_run (fun q c hc => inside_transact _ hc) _ (tended_refl found)).locks_bind
      fun reply c hc => ?_
    exact locks_release hc.spared (hR hc.left) rfl

theorem locks_beat : Locks R (beat : Routine L _) none := by
  refine locks_acquire fun found => ?_
  refine (inside_transact _ (tended_refl found)).locks_bind fun reply c hc => ?_
  exact locks_release hc.spared (hR hc.left) rfl

/-- A new stream is stored, unless the connection is stopped by then. -/
theorem locks_connect (peer : Peer) : Locks R (connect peer : Routine L _) none := by
  unfold connect
  refine locks_aside trivial fun stopped => ?_
  split
  · rfl
  refine locks_aside trivial fun dialled => ?_
  cases dialled with
  | error failure => cases failure <;> rfl
  | ok line =>
  refine locks_bind (locks_converse line _) fun outcome => ?_
  cases outcome with
  | error e => exact locks_aside trivial fun _ => rfl
  | ok outcome =>
  cases outcome with
  | rejected reason =>
    refine locks_aside trivial fun _ => ?_
    exact locks_aside trivial fun _ => rfl
  | accepted =>
  refine locks_acquire fun found => ?_
  refine locks_within id trivial fun stopped c hc => ?_
  obtain ⟨hstopped, rfl⟩ := hc
  cases stopped with
  | true =>
    refine locks_release Shut.marked (hR id) ?_
    refine locks_aside trivial fun _ => ?_
    exact locks_aside trivial fun _ => rfl
  | false =>
  -- It has looked again under the lock, so the connection was not shut when the lock was taken.
  have hopen : ¬ found.Shut := fun hshut => Bool.false_ne_true (hstopped hshut.stopped)
  have hspared (c : Connection L) : Spared found c := fun hshut => absurd hshut hopen
  have hend (c : Connection L) (hline : c.line = some line) :
      Locks R (do setConnected true; release; return (.ok () : Except ConnectionError Unit))
        (some (found, c)) := by
    refine locks_within (hspared c) trivial fun _ c' hc' => ?_
    obtain rfl := hc'
    refine locks_release (hspared _) (hR fun _ => ?_) rfl
    unfold Consistent
    rw [hline]
    rfl
  refine locks_within (hspared _) trivial fun old c hc => ?_
  cases old with
  | none =>
    refine locks_within (hspared c) trivial fun _ c' hc' => ?_
    obtain rfl := hc'
    exact hend _ rfl
  | some old =>
    refine locks_within (hspared c) trivial fun _ c' hc' => ?_
    obtain rfl := hc'
    refine locks_within (hspared _) trivial fun _ c' hc' => ?_
    obtain rfl := hc'
    exact hend _ rfl

theorem locks_keepalive (peer : Peer) : Locks R (keepalive peer : Routine L _) none := by
  refine locks_aside trivial fun stopped => ?_
  split
  · rfl
  refine locks_aside trivial fun connected => ?_
  split
  · exact locks_bind (locks_beat hR) fun _ => rfl
  · exact locks_bind (locks_connect hR peer) fun _ => rfl

end

/-- A stop that has found the connection marked leaves it shut. -/
theorem locks_stop
    (hR : ∀ {found c : Connection L}, Left found c → (found.stopped = true → c.Shut) → R found c) :
    Locks R (stop : Routine L _) none := by
  refine locks_aside trivial fun _ => ?_
  refine locks_acquire fun found => ?_
  refine locks_within id trivial fun _ c hc => ?_
  obtain rfl := hc
  have hunset : Spared found { found with connected := false } :=
    fun hshut => ⟨hshut.stopped, hshut.line, rfl⟩
  refine locks_within hunset trivial fun line c hc => ?_
  obtain ⟨hline, rfl⟩ := hc
  cases line with
  | none =>
    refine locks_release hunset (hR (fun _ => ?_) fun hstopped => ⟨hstopped, hline.symm, rfl⟩) rfl
    unfold Consistent
    rw [← hline]
    rfl
  | some line =>
    have hlost : Spared found found.lost := fun hshut => ⟨hshut.stopped, rfl, rfl⟩
    have hleft : R found found.lost :=
      hR (fun _ => consistent_lost found) fun hstopped => ⟨hstopped, rfl, rfl⟩
    refine locks_within hunset trivial fun _ c hc => ?_
    obtain rfl : c = found.lost := hc
    refine locks_within hlost trivial fun sent c hc => ?_
    obtain rfl := hc
    cases sent with
    | error e =>
      refine locks_within hlost trivial fun _ c hc => ?_
      obtain rfl := hc
      exact locks_release hlost hleft rfl
    | ok =>
      refine locks_within hlost trivial fun closed c hc => ?_
      obtain rfl := hc
      refine locks_within hlost trivial fun _ c hc => ?_
      obtain rfl := hc
      exact locks_release hlost hleft rfl

end Routine

/-- What an operation has come to when it lets go of the lock. -/
def Operation.Leaves (o : Operation) (found now : Connection L) : Prop :=
  Left found now ∧ (o = .stop → found.stopped = true → now.Shut)

/-- **Every operation leaves the connection as good as it found it**, and a stop leaves it shut. -/
theorem locks_routine (o : Operation) (peer : Peer) (config : ClientConfig) :
    Routine.Locks o.Leaves (o.routine peer config : Routine L _) none := by
  cases o with
  | connect => exact Routine.locks_connect (fun hleft => ⟨hleft, Operation.noConfusion⟩) peer
  | request r =>
    exact Routine.locks_request (fun hleft => ⟨hleft, Operation.noConfusion⟩) config r
  | beat => exact Routine.locks_beat fun hleft => ⟨hleft, Operation.noConfusion⟩
  | keepalive => exact Routine.locks_keepalive (fun hleft => ⟨hleft, Operation.noConfusion⟩) peer
  | stop => exact Routine.locks_stop fun hleft hshut => ⟨hleft, fun _ => hshut⟩

end UnionFS.Client
