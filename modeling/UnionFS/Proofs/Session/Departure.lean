import UnionFS.Proofs.Session.Courses
import UnionFS.Proofs.Session.Writes
import UnionFS.Session.Departure

/-!
# What a client leaves that goes away

A session changes the tree between what it hears and what it says, never after it has said something
and before it hears more (`Calm`).  A send that fails therefore finds the tree as it would be had
nothing more arrived: a client that goes away changes no more than one whose last bytes were never
sent (`leave_follow`).
-/

namespace UnionFS

open Dialogue Wire

namespace Dialogue

variable {σ α β : Type}

/-- After each thing that it says the dialogue leaves the state alone, until more arrives. -/
def Calm : Dialogue σ α → σ → Prop
  | done _, _ | fail _, _ => True
  | send _ d, s => (d.feed [] s).state = s ∧ d.Calm s
  | receive _ d, _ => ∀ b s, (d b).Calm s
  | consult d, s => (d s).Calm s
  | commit s' d, _ => d.Calm s'

/-- What is calm once something has been read is calm before. -/
theorem Reader.calm_bind {d : Dialogue σ α} {k : α → Dialogue σ β} (h : d.Reader)
    (hk : ∀ a s, (k a).Calm s) (s : σ) : (d >>= k).Calm s := by
  show (d.bind k).Calm s
  induction d generalizing s with
  | done a => exact hk a s
  | fail e => trivial
  | receive n d ih => exact fun b r => ih b (h b) r
  | send | consult | commit => exact absurd h id

theorem calm_inspect (view : σ → α) (k : α → Dialogue σ β) (s : σ) :
    (.inspect view >>= k : Dialogue σ β).Calm s ↔ (k (view s)).Calm s := Iff.rfl

theorem calm_answer (view : σ → α) (form : α → Bytes) (s : σ) :
    (do Dialogue.say (form (← .inspect view)) : Dialogue σ Unit).Calm s :=
  ⟨rfl, trivial⟩

theorem calm_change (change : σ → α × σ) (form : α → Bytes) (s : σ) :
    (do Dialogue.say (form (← .update change)) : Dialogue σ Unit).Calm s :=
  ⟨rfl, trivial⟩

theorem eq_done_of_outcome {d : Dialogue σ α} {a : α} (h : d.outcome? = some (.ok a)) :
    d = done a := by
  cases d with
  | done => cases h; rfl
  | _ => cases h

/-- A dialogue that has ended has used up the front of its input, and leaves whatever follows. -/
theorem feed_used {d : Dialogue σ α} {input : Bytes} {s : σ} {a : α}
    (h : (d.feed input s).pending = done a) :
    ∃ used, input = used ++ (d.feed input s).unread ∧
      ∀ more, d.feed (used ++ more) s = { d.feed input s with unread := more } := by
  induction d generalizing input s with
  | done => exact ⟨[], rfl, fun _ => rfl⟩
  | fail => cases h
  | send b d ih =>
      obtain ⟨used, hinput, hmore⟩ := ih h
      refine ⟨used, hinput, fun more => ?_⟩
      rw [feed, hmore]
      rfl
  | receive n d ih =>
      rw [feed] at h ⊢
      split at h
      · next hlen =>
        rw [if_pos hlen]
        obtain ⟨used, hinput, hmore⟩ := ih _ h
        have htake : (input.take n).length = n := List.length_take_of_le hlen
        refine ⟨input.take n ++ used, ?_, fun more => ?_⟩
        · rw [List.append_assoc, ← hinput, List.take_append_drop]
        · rw [List.append_assoc, feed, List.length_append, htake, if_pos (Nat.le_add_right _ _),
            List.take_left' htake, List.drop_left' htake, hmore]
      · cases h
  | consult d ih => exact ih s h
  | commit s' d ih => exact ih h

/-- With less than it waits for, a dialogue stays where it is. -/
theorem feed_front {d : Dialogue σ α} {input : Bytes} {s : σ}
    (h : (d.feed input s).pending.outcome? = none) {front : Bytes}
    (hfront : front <+: (d.feed input s).unread) (r : σ) :
    (d.feed input s).pending.feed front r = ⟨(d.feed input s).pending, [], front, r⟩ := by
  induction d generalizing input s with
  | done | fail => cases h
  | send b d ih => exact ih h hfront
  | receive n d ih =>
      rw [feed] at h hfront ⊢
      split at h
      · next hlen =>
        rw [if_pos hlen] at hfront ⊢
        exact ih _ h hfront
      · next hlen =>
        rw [if_neg hlen] at hfront ⊢
        rw [feed, if_neg fun hle => hlen (hle.trans hfront.length_le)]
  | consult d ih => exact ih s h hfront
  | commit s' d ih => exact ih h hfront

/-- What the dialogue waits for in the end is calm too, whatever state it finds. -/
theorem Calm.pending {d : Dialogue σ α} {s : σ} (h : d.Calm s) (input : Bytes) (r : σ) :
    (d.feed input s).pending.Calm r := by
  induction d generalizing input s with
  | done | fail => trivial
  | send b d ih => exact ih h.2 input
  | receive n d ih =>
      rw [feed]
      split
      · exact ih _ (h _ _) _
      · exact h
  | consult d ih => exact ih s h input
  | commit s' d ih => exact ih h input

/-- A dialogue has come as far as that, and what was there for it is used up or it has not ended
well. -/
def Stops (p : Progress σ α) : Prop :=
  p.unread = [] ∨ ∀ a, p.pending ≠ done a

/-- How a dialogue can go over a line that breaks. -/
inductive Curtailed (d : Dialogue σ α) (input : Bytes) (s : σ) : Progress σ (α × Nat) → Prop where
  /-- It comes to its end before that. -/
  | whole {a : α} {left : Nat} {p : Progress σ (α × Nat)} :
    p.pending = done (a, left) → (d.feed input s).pending = done a →
    p.unread = (d.feed input s).unread → p.state = (d.feed input s).state → Curtailed d input s p
  /-- It leaves the state that it leaves on the first bytes of its input. -/
  | short {front : Bytes} {p : Progress σ (α × Nat)} :
    (∀ x, p.pending ≠ done x) → front <+: input → Stops (d.feed front s) →
    p.state = (d.feed front s).state → Curtailed d input s p

/-- **A calm dialogue is broken off where it has nothing more to do.** -/
theorem Calm.curtailed {d : Dialogue σ α} {s : σ} (h : d.Calm s) (sends : Nat) (input : Bytes) :
    Curtailed d input s ((d.curtail sends).feed input s) := by
  induction d generalizing s sends input with
  | done a => exact .whole rfl rfl rfl rfl
  | fail e =>
      exact .short (by simp [curtail, feed]) List.nil_prefix (.inl rfl) rfl
  | send b d ih =>
      cases sends with
      | zero =>
          -- nothing is left to be read, and nothing more is done
          have hnone := length_unread_feed (send b d) [] s
          exact .short (by simp [curtail, feed]) List.nil_prefix
            (.inl (List.eq_nil_of_length_eq_zero (Nat.le_zero.mp hnone))) h.1.symm
      | succ sends =>
          cases ih h.2 sends input with
          | whole hend hdone hunread hstate => exact .whole hend hdone hunread hstate
          | short hend hfront hstops hstate => exact .short hend hfront hstops hstate
  | receive n d ih =>
      rw [curtail, feed]
      split
      · next hlen =>
        have hfeed : (receive n d).feed input s = (d (input.take n)).feed (input.drop n) s := by
          rw [feed, if_pos hlen]
        cases ih (input.take n) (h _ _) sends (input.drop n) with
        | whole hend hdone hunread hstate =>
            rw [← hfeed] at hdone hunread hstate
            exact .whole hend hdone hunread hstate
        | @short front _ hend hfront hstops hstate =>
            have htake : (input.take n).length = n := List.length_take_of_le hlen
            have hagain : (receive n d).feed (input.take n ++ front) s =
                (d (input.take n)).feed front s := by
              rw [feed, if_pos (by rw [List.length_append, htake]; omega), List.take_left' htake,
                List.drop_left' htake]
            rw [← hagain] at hstops hstate
            refine .short hend ?_ hstops hstate
            rw [← List.take_append_drop n input, List.take_left' htake]
            exact (List.prefix_append_right_inj _).mpr hfront
      · next hlen =>
        have hwaits : (receive n d).feed input s = ⟨receive n d, [], input, s⟩ := by
          rw [feed, if_neg hlen]
        refine .short (by simp) (List.prefix_refl input) ?_ ?_
        · rw [hwaits]
          exact .inr (by simp)
        · rw [hwaits]
  | consult d ih =>
      cases ih s h sends input with
      | whole hend hdone hunread hstate => exact .whole hend hdone hunread hstate
      | short hend hfront hstops hstate => exact .short hend hfront hstops hstate
  | commit s' d ih =>
      cases ih h sends input with
      | whole hend hdone hunread hstate => exact .whole hend hdone hunread hstate
      | short hend hfront hstops hstate => exact .short hend hfront hstops hstate

end Dialogue

namespace Export

variable {e : Export} {t : Tree}

/-- Before any data of a write are there, nothing is written. -/
theorem state_takeData_nil (e : Export) (q : Path) (size offset : UInt64) (t : Tree) :
    ((e.takeData q size offset).feed [] t).state = t := by
  rw [takeData, readBlock]
  split
  · rfl
  · show (Dialogue.feed (.receive size.toNat _) [] t).state = t
    rw [Dialogue.feed]
    split
    · rw [List.take_nil]
      exact writeAt_nil q offset t
    · rfl

theorem calm_answerWrite (e : Export) (path : Outcome String) (size offset : UInt64) (t : Tree) :
    (e.answerWrite (path, size, offset)).Calm t := by
  rw [answerWrite, calm_inspect]
  cases path.bind (e.openForWrite t · size) with
  | error c => exact ⟨rfl, trivial⟩
  | ok q =>
      refine ⟨e.state_takeData_nil q size offset t, ?_⟩
      exact (reader_block _ _).calm_bind (fun data s => calm_change _ _ s) t

/-- **Whatever a server serves, it does nothing after it has spoken** and before it hears more. -/
theorem calm_serve (e : Export) (c : Command) (t : Tree) : (e.serve c).Calm t := by
  cases hc : c.isRequest with
  | false =>
      cases c with
      | getattr | access | readdir | read | write | openFile => cases hc
      | _ => trivial
  | true =>
      by_cases hw : c = .write
      · rw [hw, serve_write]
        exact (reader_writeArguments e).calm_bind (fun x s => e.calm_answerWrite x.1 x.2.1 x.2.2 s) t
      · rw [serve_atOnce e hc hw]
        exact (reader_request e c).calm_bind (fun r s => calm_answer _ _ s) t

end Export

theorem Gate.calm_login (g : Gate) (t : Tree) : g.login.Calm t := by
  have hkey : Reader (σ := Tree) readKey := by
    refine (Reader.take _).bind fun token => ?_
    rw [ofUtf8]
    split
    · exact trivial
    · exact rfl
  refine hkey.calm_bind (fun key s => ?_) t
  exact ⟨rfl, trivial⟩

namespace Session

variable {s : Session} {e : Export} {t : Tree} {input : Bytes}

theorem tree_serveAll_nil (s : Session) (e : Export) (now : Nat) (t : Tree) :
    (s.serveAll e now t []).tree = t := by
  rw [serveAll]

/-- Where a dialogue has come as far as that, the session does no more. -/
theorem tree_takeUp_of_stops {α : Type} {p : Progress Tree α} (h : Stops p) (s : Session)
    (waits : Dialogue Tree α → Phase) (opens : α → Option Export) (now : Nat) :
    (s.takeUp waits opens now p).tree = p.state := by
  obtain ⟨pending, sent, unread, state⟩ := p
  rw [takeUp]
  cases pending with
  | done a =>
      obtain rfl := h.resolve_right fun hopen => hopen a rfl
      dsimp only [outcome?]
      cases opens a with
      | some e => exact tree_serveAll_nil s e now state
      | none => rfl
  | _ => rfl

/-- **What is served to a client that has gone is what is served of the first bytes it sent.** -/
theorem serveGone_eq (e : Export) (sends : Nat) (t : Tree) (input : Bytes) (s : Session)
    (now : Nat) :
    ∃ front, front <+: input ∧ (s.serveAll e now t front).tree = e.serveGone sends t input := by
  fun_induction e.serveGone sends t input generalizing s
  case case1 | case2 | case4 | case5 =>
      exact ⟨[], List.nil_prefix, tree_serveAll_nil s e now _⟩
  case case3 a b rest hnone ih =>
      obtain ⟨front, hfront, htree⟩ := ih s
      refine ⟨a :: b :: front, ?_, ?_⟩
      · simpa using hfront
      · rwa [serveAll_unknown hnone]
  case case6 a b rest hbeat sends ih =>
      obtain ⟨front, hfront, htree⟩ := ih { s with heartbeat := s.heartbeat.beat }
      refine ⟨a :: b :: front, ?_, ?_⟩
      · simpa using hfront
      · rwa [serveAll_heartbeat hbeat]
  case case7 sends t a b rest command hstop hbeat hcommand p left hend ih =>
      cases (e.calm_serve command t).curtailed sends rest with
      | short hopen => exact absurd (eq_done_of_outcome hend) (hopen _)
      | whole _ hdone hunread hstate =>
          obtain ⟨used, hinput, hmore⟩ := feed_used hdone
          obtain ⟨front, hfront, htree⟩ := ih s
          refine ⟨a :: b :: (used ++ front), ?_, ?_⟩
          · rw [hinput, ← hunread]
            simpa using hfront
          · rw [serveAll_command hcommand hstop hbeat, hmore, proceed, takeUp]
            dsimp only
            rw [hdone, ← hstate]
            exact htree
  case case8 sends t a b rest command hstop hbeat hcommand p hend =>
      cases (e.calm_serve command t).curtailed sends rest with
      | @whole _ left _ hdone => exact absurd (congrArg outcome? hdone) (hend left)
      | @short front _ _ hfront hstops hstate =>
          refine ⟨a :: b :: front, ?_, ?_⟩
          · simpa using hfront
          · rw [serveAll_command hcommand hstop hbeat, proceed, tree_takeUp_of_stops hstops]
            exact hstate.symm

/-- The same of a dialogue that may open an export. -/
theorem serveGone_takeUp {α : Type} {d : Dialogue Tree α} (h : d.Calm t) (sends : Nat)
    (input : Bytes) (s : Session) (waits : Dialogue Tree α → Phase) (opens : α → Option Export)
    (now : Nat) :
    ∃ front, front <+: input ∧
      (s.takeUp waits opens now (d.feed front t)).tree = d.serveGone opens sends t input := by
  rw [Dialogue.serveGone]
  have hcurtailed := h.curtailed sends input
  generalize (d.curtail sends).feed input t = p at hcurtailed
  cases hcurtailed with
  | @whole a left _ hend hdone hunread hstate =>
      obtain ⟨used, hused, hmore⟩ := feed_used hdone
      rw [hend]
      dsimp only [outcome?]
      cases hopens : opens a with
      | none =>
          refine ⟨input, List.prefix_refl _, ?_⟩
          rw [takeUp, hdone]
          dsimp only [outcome?]
          rw [hopens]
          exact hstate.symm
      | some e =>
          obtain ⟨front, hfront, htree⟩ := serveGone_eq e left p.state p.unread s now
          refine ⟨used ++ front, ?_, ?_⟩
          · rw [hused, ← hunread]
            exact (List.prefix_append_right_inj _).mpr hfront
          · rw [hmore, takeUp, hdone]
            dsimp only [outcome?]
            rw [hopens, ← hstate]
            exact htree
  | @short front _ hopen hfront hstops hstate =>
      refine ⟨front, hfront, ?_⟩
      rw [tree_takeUp_of_stops hstops, ← hstate]
      cases hpending : p.pending with
      | done x => exact absurd hpending (hopen x)
      | _ => rfl

/-- Going on within a request changes the tree as taking it up does. -/
theorem tree_resume_busy {pending : Dialogue Tree Unit} (h : s.phase = .busy e pending)
    (now : Nat) (t : Tree) (input : Bytes) :
    (s.resume now t input).tree =
      (s.takeUp (.busy e) (fun _ => some e) now (pending.feed input t)).tree := by
  rw [resume, h, takeUp]
  dsimp only
  rcases (pending.feed input t).pending.outcome? with _ | (error | a)
  · dsimp only
    split <;> rfl
  · rfl
  · rfl

/-- And so does going on with a token. -/
theorem tree_resume_login {pending : Dialogue Tree (Except HandshakeFailure Export)}
    (h : s.phase = .authenticating pending) (now : Nat) (t : Tree) (input : Bytes) :
    (s.resume now t input).tree =
      (s.takeUp .authenticating Except.toOption now (pending.feed input t)).tree := by
  rw [resume, h, takeUp]
  dsimp only
  rcases (pending.feed input t).pending.outcome? with _ | (error | failure | served)
  · dsimp only
    split <;> rfl
  · rfl
  · rfl
  · rfl

/-- What the session waits for is calm, whatever the tree will be by then, and of what has arrived
nothing can be served yet. -/
structure Composed (s : Session) : Prop where
  authenticating : ∀ pending, s.phase = .authenticating pending → ∀ t, pending.Calm t
  busy : ∀ e pending, s.phase = .busy e pending → ∀ t, pending.Calm t
  waits : ∀ front, front <+: s.unread → ∀ now t, (s.resume now t front).tree = t

/-- A client that goes away changes what the first bytes change that have arrived. -/
theorem Composed.leave_eq (h : s.Composed) (sends : Nat) (t : Tree) (bytes : Bytes) (now : Nat) :
    ∃ front, front <+: s.unread ++ bytes ∧
      (s.resume now t front).tree = s.leave sends t bytes := by
  rw [leave]
  cases hphase : s.phase with
  | closed time =>
      refine ⟨[], List.nil_prefix, ?_⟩
      rw [resume, hphase]
  | idle e | half e =>
      obtain ⟨front, hfront, htree⟩ := serveGone_eq e sends t (s.unread ++ bytes) s now
      refine ⟨front, hfront, ?_⟩
      rw [resume, hphase]
      exact htree
  | authenticating pending =>
      obtain ⟨front, hfront, htree⟩ := serveGone_takeUp (h.authenticating pending hphase t) sends
        (s.unread ++ bytes) s .authenticating Except.toOption now
      exact ⟨front, hfront, (tree_resume_login hphase now t front).trans htree⟩
  | busy e pending =>
      obtain ⟨front, hfront, htree⟩ := serveGone_takeUp (h.busy e pending hphase t) sends
        (s.unread ++ bytes) s (.busy e) (fun _ => some e) now
      exact ⟨front, hfront, (tree_resume_busy hphase now t front).trans htree⟩

/-- Nothing more needs to arrive of what is served to a client that goes away than it sends last. -/
theorem Composed.leave (h : s.Composed) (sends : Nat) (t : Tree) (bytes : Bytes) (now : Nat) :
    ∃ front, front <+: bytes ∧ (s.arrive now t front).tree = s.leave sends t bytes := by
  obtain ⟨front, hfront, htree⟩ := h.leave_eq sends t bytes now
  by_cases hlen : front.length ≤ s.unread.length
  · -- nothing can be served yet of what had arrived before
    have hold := List.prefix_of_prefix_length_le hfront (List.prefix_append _ _) hlen
    refine ⟨[], List.nil_prefix, ?_⟩
    rw [← htree, h.waits front hold now t]
    rfl
  · obtain ⟨new, rfl⟩ := List.prefix_of_prefix_length_le (List.prefix_append _ _) hfront
      (Nat.le_of_not_le hlen)
    refine ⟨new, (List.prefix_append_right_inj _).mp hfront, ?_⟩
    rw [arrive, if_neg]
    · exact htree
    · intro hnone
      rw [List.isEmpty_iff.mp hnone, List.append_nil] at hlen
      exact hlen (Nat.le_refl _)

/-! ## Sessions that have come so far -/

variable {g : Gate} {start now : Stamp} {past part : List Arrival} {i : Interval} {said : Bytes}

/-- A session that is in no dialogue is composed where nothing can be served yet. -/
theorem composed_of_no_dialogue (hlogin : ∀ pending, s.phase ≠ .authenticating pending)
    (hrequest : ∀ e pending, s.phase ≠ .busy e pending)
    (hwaits : ∀ front, front <+: s.unread → ∀ now t, (s.resume now t front).tree = t) :
    s.Composed where
  authenticating pending hphase := absurd hphase (hlogin pending)
  busy e pending hphase := absurd hphase (hrequest e pending)
  waits := hwaits

theorem composed_of_closed (h : s.stage = .closed) : s.Composed := by
  obtain ⟨since, hphase⟩ := phase_of_closed h
  refine composed_of_no_dialogue (by simp [hphase]) (by simp [hphase]) fun front _ now t => ?_
  rw [resume, hphase]

theorem Waiting.composed (h : s.Waiting g start past now) : s.Composed := by
  constructor
  case authenticating =>
      intro pending hpending t
      cases h.phase.symm.trans hpending
      exact g.calm_login t
  case busy =>
      intro e pending hpending
      cases h.phase.symm.trans hpending
  case waits =>
      intro front hfront now t
      have hshort : front.length < tokenWidth := by
        have hlen := hfront.length_le
        rw [h.unread, length_bytesOf] at hlen
        exact Nat.lt_of_le_of_lt hlen h.short
      rw [tree_resume_login h.phase, g.feed_login_short hshort]
      rfl

theorem Within.composed (h : s.Within e i part said now) : s.Composed := by
  cases h with
  | idle hcounting hunread =>
      have hphase := hcounting.phase
      refine composed_of_no_dialogue (by simp [hphase]) (by simp [hphase]) ?_
      intro front hfront now t
      rw [hunread] at hfront
      obtain rfl := List.prefix_nil.mp hfront
      rw [resume, hphase]
      exact tree_serveAll_nil s e now t
  | @half x _ hphase hunread =>
      refine composed_of_no_dialogue (by simp [hphase]) (by simp [hphase]) ?_
      intro front hfront now t
      rw [resume, hphase]
      dsimp only
      rw [hunread] at hfront
      rcases List.prefix_cons_iff.mp hfront with rfl | ⟨rest, rfl, hrest⟩
      · exact tree_serveAll_nil s e now t
      · rw [List.prefix_nil.mp hrest, serveAll]
  | @busy x y body c pending said now hphase _ hrequests hfeed hwaits =>
      have hpending : ((e.serve c).feed (bytesOf body) i.tree).pending = pending := by rw [hfeed]
      constructor
      case authenticating =>
          intro pending' hpending'
          cases hphase.symm.trans hpending'
      case busy =>
          intro e' pending' hpending' t
          cases hphase.symm.trans hpending'
          rw [← hpending]
          exact (e.calm_serve c i.tree).pending (bytesOf body) t
      case waits =>
          intro front hfront now t
          have hstays : pending.feed front t = ⟨pending, [], front, t⟩ := by
            rw [← hpending]
            refine feed_front ?_ ?_ t
            · rw [hpending]
              exact hwaits
            · rw [hfeed]
              exact hfront
          rw [tree_resume_busy hphase, hstays, takeUp, hwaits]

theorem Come.composed {R : Reaction} (h : Come R g t start past now) : R.session.Composed := by
  cases h with
  | waiting hwaiting => exact hwaiting.composed
  | denied hdenied => exact composed_of_closed hdenied.closed
  | entered _ hR htold =>
      subst hR
      obtain ⟨rounds, j, part, said, hstanding⟩ := htold
      rcases hstanding.state with ⟨-, hwithin⟩ | hover
      · exact hwithin.composed
      · exact composed_of_closed hover.closed

end Session

namespace Course

open Session

/-- **A client that goes away changes no more than one whose last bytes were never sent**, however
much of what it is told the line still takes. -/
theorem leave_follow (g : Gate) (t : Tree) (now : Nat) (schedule : Schedule) (sends : Nat)
    (bytes : Bytes) :
    (let c := (Course.start g t now).follow schedule
     ∃ front, front <+: bytes ∧ (c.meet (.send front)).tree = c.session.leave sends c.tree bytes) := by
  have hcomposed : ((Course.start g t now).follow schedule).session.Composed := by
    rcases (came_start g t now).follow_cases schedule with ⟨past, last, hcome, -⟩ | hclosed
    · exact hcome.composed
    · exact composed_of_closed hclosed
  exact hcomposed.leave sends _ bytes _

end Course
end UnionFS
