import UnionFS.Proofs.Session.Requests
import UnionFS.Proofs.Session.Settled

/-!
# Input in pieces

What a session does with its input does not depend on how the input is cut: going on with the rest
comes to what going through all of it at once would have come to (`resume_append`).  Only the clocks
differ, and nothing that is sent or done depends on them (`resume_timeless`).
-/

namespace UnionFS

open Dialogue

/-! ## Clocks -/

/-- The phase without the time at which the session ended. -/
def Phase.timeless : Phase → Phase
  | .closed _ => .closed 0
  | phase => phase

/-- The session without its clocks. -/
def Session.timeless (s : Session) : Session :=
  { s with phase := s.phase.timeless, heartbeat := {}, deadline := 0 }

namespace Reaction

/-- The reaction without the session's clocks. -/
def timeless (r : Reaction) : Reaction :=
  { r with session := r.session.timeless }

theorem timeless_mk (s : Session) (t : Tree) (sent : Bytes) :
    (⟨s, t, sent⟩ : Reaction).timeless = ⟨s.timeless, t, sent⟩ := rfl

theorem timeless_after (r : Reaction) (b : Bytes) : (r.after b).timeless = r.timeless.after b := rfl

theorem after_after (r : Reaction) (b b' : Bytes) : (r.after b').after b = r.after (b ++ b') := by
  simp only [after, List.append_assoc]

/-- What reactions have in common that differ in clocks only. -/
theorem parts_of_timeless {r r' : Reaction} (h : r.timeless = r'.timeless) :
    r.session.timeless = r'.session.timeless ∧ r.session.unread = r'.session.unread ∧
      r.tree = r'.tree ∧ r.sent = r'.sent := by
  have hsession : r.session.timeless = r'.session.timeless := congrArg Reaction.session h
  have hunread : r.session.timeless.unread = r'.session.timeless.unread :=
    congrArg Session.unread hsession
  have htree : r.timeless.tree = r'.timeless.tree := congrArg Reaction.tree h
  have hsent : r.timeless.sent = r'.timeless.sent := congrArg Reaction.sent h
  exact ⟨hsession, hunread, htree, hsent⟩

/-- What a session does when more arrives. -/
def goOn (r : Reaction) (now : Nat) (bytes : Bytes) : Reaction :=
  (r.session.resume now r.tree (r.session.unread ++ bytes)).after r.sent

theorem goOn_after (r : Reaction) (b : Bytes) (now : Nat) (bytes : Bytes) :
    (r.after b).goOn now bytes = (r.goOn now bytes).after b := by
  rw [goOn, goOn, after_after]
  rfl

end Reaction

namespace Session

/-- What sessions have in common that serve alike: neither their phases nor their clocks. -/
structure Kin (s s' : Session) : Prop where
  gate : s.gate = s'.gate
  ended : s.ended = s'.ended

variable {s s' : Session}

theorem Kin.refl (s : Session) : s.Kin s := ⟨rfl, rfl⟩

theorem timeless_finish (h : s.Kin s') (now now' : Nat) :
    (s.finish now).timeless = (s'.finish now').timeless := by
  simp only [finish, timeless, Phase.timeless, h.gate, h.ended]

theorem timeless_await (h : s.Kin s') (now now' : Nat) (phase : Phase) (unread : Bytes)
    (timeout timeout' : UInt64) :
    (s.await now phase unread timeout).timeless =
      (s'.await now' phase unread timeout').timeless := by
  rw [await, await, h.ended]
  split
  · exact timeless_finish h now now'
  · simp only [timeless, h.gate]

/-! ## Serving on -/

/-- After a handshake the session serves the export that was opened, if one was. -/
abbrev enter (s : Session) : Nat → Progress Tree (Except HandshakeFailure Export) → Reaction :=
  s.takeUp .authenticating Except.toOption

variable {e : Export} {now now' : Nat} {t : Tree}

/-- **What is served does not depend on the clocks.** -/
theorem serveAll_timeless (h : s.Kin s') (e : Export) (now now' : Nat) (t : Tree)
    (input : Bytes) :
    (s.serveAll e now t input).timeless = (s'.serveAll e now' t input).timeless := by
  fun_induction s.serveAll e now t input generalizing s'
  case case1 s t =>
      rw [serveAll, Reaction.timeless_mk, Reaction.timeless_mk, timeless_await h now now']
  case case2 s t a =>
      rw [serveAll, Reaction.timeless_mk, Reaction.timeless_mk, timeless_await h now now']
  case case3 s t a b rest hnone ih =>
      rw [serveAll_unknown hnone]
      exact ih h
  case case4 s t a b rest hstop =>
      rw [serveAll_stop hstop, Reaction.timeless_mk, Reaction.timeless_mk,
        timeless_finish h now now']
  case case5 s t a b rest hcommand ih =>
      rw [serveAll_heartbeat hcommand, Reaction.timeless_after, Reaction.timeless_after]
      exact congrArg (Reaction.after _) (ih ⟨h.gate, h.ended⟩)
  case case6 s t a b rest command hstop hbeat hcommand p hdone ih =>
      rw [serveAll_command hcommand hstop hbeat, proceed, takeUp, hdone]
      exact congrArg (Reaction.after _) (ih h)
  case case7 s t a b rest command hstop hbeat hcommand p error hfailed =>
      rw [serveAll_command hcommand hstop hbeat, proceed, takeUp, hfailed, Reaction.timeless_mk,
        Reaction.timeless_mk, timeless_finish h now now']
  case case8 s t a b rest command hstop hbeat hcommand p hwaits =>
      rw [serveAll_command hcommand hstop hbeat, proceed, takeUp, hwaits, Reaction.timeless_mk,
        Reaction.timeless_mk, timeless_await h now now']

/-- Nor does how a session goes on after a dialogue. -/
theorem takeUp_timeless {α : Type} (h : s.Kin s') (waits : Dialogue Tree α → Phase)
    (opens : α → Option Export) (now now' : Nat) (p : Progress Tree α) :
    (s.takeUp waits opens now p).timeless = (s'.takeUp waits opens now' p).timeless := by
  rw [takeUp, takeUp]
  rcases p.pending.outcome? with _ | (error | a)
  · rw [Reaction.timeless_mk, Reaction.timeless_mk, timeless_await h now now']
  · rw [Reaction.timeless_mk, Reaction.timeless_mk, timeless_finish h now now']
  dsimp only
  cases opens a with
  | none => rw [Reaction.timeless_mk, Reaction.timeless_mk, timeless_finish h now now']
  | some e =>
      exact congrArg (Reaction.after _) (serveAll_timeless h e now now' p.state p.unread)

theorem resume_serving_timeless (hs : s.phase = .idle e ∨ s.phase = .half e) (h : s.Kin s')
    (now now' : Nat) (t : Tree) (input : Bytes) :
    (s.resume now t input).timeless = (s'.serveAll e now' t input).timeless := by
  rcases hs with hs | hs <;> rw [resume, hs] <;> exact serveAll_timeless h e now now' t input

/-- In the middle of a request only the end of the wait is not as after the command. -/
theorem resume_busy_timeless {pending : Dialogue Tree Unit} (hs : s.phase = .busy e pending)
    (h : s.Kin s') (now now' : Nat) (t : Tree) (input : Bytes) :
    (s.resume now t input).timeless = (s'.proceed e now' (pending.feed input t)).timeless := by
  rw [← takeUp_timeless h _ _ now now', resume, hs, takeUp]
  dsimp only
  generalize pending.feed input t = p
  rcases p.pending.outcome? with _ | (error | a)
  · dsimp only
    rw [await]
    split <;> rfl
  · rfl
  · rfl

theorem resume_authenticating_timeless
    {pending : Dialogue Tree (Except HandshakeFailure Export)}
    (hs : s.phase = .authenticating pending) (h : s.Kin s') (now now' : Nat) (t : Tree)
    (input : Bytes) :
    (s.resume now t input).timeless = (s'.enter now' (pending.feed input t)).timeless := by
  rw [← takeUp_timeless h _ _ now now', resume, hs, takeUp]
  dsimp only
  generalize pending.feed input t = p
  rcases p.pending.outcome? with _ | (error | (failure | e))
  · dsimp only
    rw [await]
    split <;> rfl
  · rfl
  · rfl
  · rfl

theorem kin_of_timeless (h : s.timeless = s'.timeless) : s.Kin s' := by
  have hgate : s.timeless.gate = s'.timeless.gate := congrArg Session.gate h
  have hended : s.timeless.ended = s'.timeless.ended := congrArg Session.ended h
  exact ⟨hgate, hended⟩

/-- The phases of sessions that differ in their clocks only. -/
theorem phase_of_timeless (h : s.timeless = s'.timeless) :
    s.phase = s'.phase ∨ ∃ time time', s.phase = .closed time ∧ s'.phase = .closed time' := by
  have hphase : s.phase.timeless = s'.phase.timeless := congrArg Session.phase h
  cases hs : s.phase with
  | closed time =>
      cases hs' : s'.phase with
      | closed time' => exact .inr ⟨time, time', rfl, rfl⟩
      | _ =>
          rw [hs, hs'] at hphase
          cases hphase
  | _ =>
      cases hs' : s'.phase with
      | closed time' =>
          rw [hs, hs'] at hphase
          cases hphase
      | _ =>
          rw [hs, hs'] at hphase
          exact .inl hphase

/-- **What a session does does not depend on its clocks.** -/
theorem resume_timeless (h : s.timeless = s'.timeless) (now now' : Nat) (t : Tree)
    (input : Bytes) :
    (s.resume now t input).timeless = (s'.resume now' t input).timeless := by
  have hkin := kin_of_timeless h
  rcases phase_of_timeless h with hphase | ⟨time, time', hs, hs'⟩
  case inr =>
      rw [resume, resume, hs, hs']
      exact congrArg (Reaction.mk · t []) h
  cases hs : s.phase with
  | closed time =>
      rw [resume, resume, ← hphase, hs]
      exact congrArg (Reaction.mk · t []) h
  | idle e =>
      rw [resume_serving_timeless (.inl hs) hkin now now',
        resume_serving_timeless (.inl (hphase.symm.trans hs)) (.refl s')]
  | half e =>
      rw [resume_serving_timeless (.inr hs) hkin now now',
        resume_serving_timeless (.inr (hphase.symm.trans hs)) (.refl s')]
  | authenticating pending =>
      rw [resume_authenticating_timeless hs hkin now now',
        resume_authenticating_timeless (hphase.symm.trans hs) (.refl s')]
  | busy e pending =>
      rw [resume_busy_timeless hs hkin now now',
        resume_busy_timeless (hphase.symm.trans hs) (.refl s')]

theorem goOn_timeless {r r' : Reaction} (h : r.timeless = r'.timeless) (now now' : Nat)
    (bytes : Bytes) : (r.goOn now bytes).timeless = (r'.goOn now' bytes).timeless := by
  obtain ⟨hsession, hunread, htree, hsent⟩ := Reaction.parts_of_timeless h
  rw [Reaction.goOn, Reaction.goOn, htree, hsent, hunread, Reaction.timeless_after,
    Reaction.timeless_after, resume_timeless hsession now now']

/-! ## Cuts -/

/-- What has been sent before is sent before. -/
theorem takeUp_sent {α : Type} (s : Session) (waits : Dialogue Tree α → Phase)
    (opens : α → Option Export) (now : Nat) (q : Progress Tree α) (b : Bytes) :
    s.takeUp waits opens now { q with sent := b ++ q.sent } =
      (s.takeUp waits opens now q).after b := by
  rw [takeUp, takeUp]
  rcases q.pending.outcome? with _ | (error | a)
  · rfl
  · rfl
  dsimp only
  cases opens a with
  | none => rfl
  | some e => exact (Reaction.after_after _ _ _).symm

/-- A session that waits goes on as it would from the phase it waits in. -/
theorem goOn_await (hs : s.ended = false) (phase : Phase) (unread : Bytes) (timeout : UInt64)
    (sent b : Bytes) {r : Reaction}
    (h : ∀ s' : Session, s'.phase = phase → s'.Kin s →
      (s'.resume now' t (unread ++ b)).timeless = r.timeless) :
    ((⟨s.await now phase unread timeout, t, sent⟩ : Reaction).goOn now' b).timeless =
      (r.after sent).timeless := by
  rw [await_listening hs, Reaction.goOn, Reaction.timeless_after, Reaction.timeless_after]
  exact congrArg (Reaction.after sent) (h _ rfl ⟨rfl, rfl⟩)

/-- A cut in what is served makes no difference. -/
def Seamless (s : Session) (e : Export) (now now' : Nat) (t : Tree) (a b : Bytes) : Prop :=
  (s.serveAll e now t (a ++ b)).timeless = ((s.serveAll e now t a).goOn now' b).timeless

/-- Going on after a dialogue does not depend on how its input was cut, if serving what follows it
does not, and if the session waits with the rest of the dialogue. -/
theorem takeUp_append {α : Type} {waits : Dialogue Tree α → Phase} {opens : α → Option Export}
    (d : Dialogue Tree α) (a b : Bytes) (t : Tree) (hs : s.ended = false) (now now' : Nat)
    (hserve : ∀ x e, (d.feed a t).pending = .done x → opens x = some e →
      s.Seamless e now now' (d.feed a t).state (d.feed a t).unread b)
    (hwaits : ∀ (s' : Session) pending, s'.phase = waits pending → s'.Kin s → ∀ t input,
      (s'.resume now' t input).timeless =
        (s.takeUp waits opens now (pending.feed input t)).timeless) :
    (s.takeUp waits opens now (d.feed (a ++ b) t)).timeless =
      ((s.takeUp waits opens now (d.feed a t)).goOn now' b).timeless := by
  rw [feed_append]
  dsimp only
  rw [takeUp_sent]
  generalize d.feed a t = p at hserve ⊢
  obtain ⟨pending, sent, unread, state⟩ := p
  cases pending with
  | done x =>
      simp only [feed, takeUp, outcome?]
      cases hx : opens x with
      | none => rfl
      | some e =>
          dsimp only
          rw [Reaction.goOn_after, Reaction.timeless_after, Reaction.timeless_after]
          exact congrArg (Reaction.after _) (hserve x e rfl hx)
  | fail error => rfl
  | send | receive | consult | commit =>
      exact (goOn_await hs _ unread _ sent b fun s' hphase hkin =>
        hwaits s' _ hphase hkin state _).symm

/-- A command and what follows it do not depend on how they are cut after the command, if what is
served behind the request does not. -/
theorem serveAll_command_append {x y : UInt8} {rest : Bytes} {command : Command}
    (h : command? x y = some command)
    (hstop : command ≠ .stop) (hbeat : command ≠ .heartbeat) (hs : s.ended = false) (now' : Nat)
    {b : Bytes}
    (hserve : let p := (e.serve command).feed rest t
      ∀ u, p.pending = .done u → s.Seamless e now now' p.state p.unread b) :
    (s.serveAll e now t (x :: y :: rest ++ b)).timeless =
      ((s.proceed e now ((e.serve command).feed rest t)).goOn now' b).timeless := by
  rw [List.cons_append, List.cons_append, serveAll_command h hstop hbeat]
  refine takeUp_append (e.serve command) rest b t hs now now' ?_ ?_
  · intro u e' hdone he
    cases he
    exact hserve u hdone
  · intro s' pending hphase hkin
    exact resume_busy_timeless hphase hkin now' now

/-- **What is served does not depend on how it is cut.** -/
theorem serveAll_append (hs : s.ended = false) (now' : Nat) (a b : Bytes) :
    (s.serveAll e now t (a ++ b)).timeless = ((s.serveAll e now t a).goOn now' b).timeless := by
  fun_induction s.serveAll e now t a
  case case1 s t =>
      exact (goOn_await hs _ [] _ [] b fun s' hphase hkin =>
        resume_serving_timeless (.inl hphase) hkin now' now t b).symm
  case case2 s t a =>
      exact (goOn_await hs _ [a] _ [] b fun s' hphase hkin =>
        resume_serving_timeless (.inr hphase) hkin now' now t (a :: b)).symm
  case case3 s t x y rest hnone ih =>
      rw [List.cons_append, List.cons_append, serveAll_unknown hnone]
      exact ih hs
  case case4 s t x y rest hstop =>
      rw [List.cons_append, List.cons_append, serveAll_stop hstop]
      rfl
  case case5 s t x y rest hcommand ih =>
      rw [List.cons_append, List.cons_append, serveAll_heartbeat hcommand, Reaction.goOn_after,
        Reaction.timeless_after, Reaction.timeless_after]
      exact congrArg (Reaction.after _) (ih hs)
  case case6 s t x y rest command hstop hbeat hcommand p hdone ih =>
      rw [serveAll_command_append hcommand hstop hbeat hs now' fun _ _ => ih hs, proceed, takeUp,
        hdone]
  case case7 s t x y rest command hstop hbeat hcommand p error hfailed =>
      rw [serveAll_command_append hcommand hstop hbeat hs, proceed, takeUp, hfailed]
      intro p x hdone
      rw [hdone] at hfailed
      cases hfailed
  case case8 s t x y rest command hstop hbeat hcommand p hwaits =>
      rw [serveAll_command_append hcommand hstop hbeat hs, proceed, takeUp, hwaits]
      intro p x hdone
      rw [hdone] at hwaits
      cases hwaits

/-- **What a session does does not depend on how its input is cut.** -/
theorem resume_append (hs : s.ended = false) (now now' : Nat) (t : Tree) (a b : Bytes) :
    (s.resume now t (a ++ b)).timeless = ((s.resume now t a).goOn now' b).timeless := by
  cases hphase : s.phase with
  | closed time =>
      simp only [Reaction.goOn, resume, hphase]
      rfl
  | idle e | half e =>
      simp only [resume, hphase]
      exact serveAll_append hs now' a b
  | authenticating pending =>
      have hresume := resume_authenticating_timeless hphase (.refl s) now now t
      rw [goOn_timeless (hresume a) now' now', hresume]
      exact takeUp_append pending a b t hs now now' (fun _ _ _ _ => serveAll_append hs now' _ b)
        fun s' pending hphase hkin => resume_authenticating_timeless hphase hkin now' now
  | busy e pending =>
      have hresume := resume_busy_timeless hphase (.refl s) now now t
      rw [goOn_timeless (hresume a) now' now', hresume]
      exact takeUp_append pending a b t hs now now' (fun _ _ _ _ => serveAll_append hs now' _ b)
        fun s' pending hphase hkin => resume_busy_timeless hphase hkin now' now

/-! ## The end of the stream -/

theorem closed_await (h : s.ended = true) (now : Nat) (phase : Phase) (unread : Bytes)
    (timeout : UInt64) : (s.await now phase unread timeout).stage = .closed := by
  rw [await, if_pos h]
  rfl

theorem closed_serveAll (h : s.ended = true) (e : Export) (now : Nat) (t : Tree)
    (input : Bytes) : (s.serveAll e now t input).session.stage = .closed := by
  fun_induction s.serveAll e now t input with
  | case1 | case2 | case8 => exact closed_await h ..
  | case4 | case7 => rfl
  | case3 s t a b rest hnone ih | case5 s t a b rest hcommand ih => exact ih h
  | case6 s t a b rest command hstop hbeat hcommand p hdone ih => exact ih h

theorem closed_takeUp {α : Type} (h : s.ended = true) (waits : Dialogue Tree α → Phase)
    (opens : α → Option Export) (now : Nat) (p : Progress Tree α) :
    (s.takeUp waits opens now p).session.stage = .closed := by
  rw [takeUp]
  rcases p.pending.outcome? with _ | (error | a)
  · exact closed_await h ..
  · rfl
  dsimp only
  cases opens a with
  | none => rfl
  | some e => exact closed_serveAll h ..

theorem stage_of_timeless (h : s.timeless = s'.timeless) : s.stage = s'.stage := by
  rcases phase_of_timeless h with hphase | ⟨time, time', hs, hs'⟩
  · rw [stage, stage, hphase]
  · rw [stage, stage, hs, hs']

/-- **The end of the stream ends a session.** -/
theorem closed_resume (h : s.ended = true) (now : Nat) (t : Tree) (input : Bytes) :
    (s.resume now t input).session.stage = .closed := by
  cases hphase : s.phase with
  | closed time =>
      simp only [resume, hphase, stage]
  | idle e | half e =>
      simp only [resume, hphase]
      exact closed_serveAll h ..
  | authenticating pending =>
      have hresume := resume_authenticating_timeless hphase (.refl s) now now t input
      rw [stage_of_timeless (congrArg Reaction.session hresume)]
      exact closed_takeUp h ..
  | busy e pending =>
      have hresume := resume_busy_timeless hphase (.refl s) now now t input
      rw [stage_of_timeless (congrArg Reaction.session hresume)]
      exact closed_takeUp h ..

end Session
end UnionFS
