import UnionFS.Proofs.Session.Courses

/-!
# Answers to tokens

A session decides on a token with the last byte of it (`resume_token`).  Where the token holds a
text the decision is sent first, whatever else has come with it; where it holds none there is
nothing to decide on, and the session ends without a word.  Nothing that happens later changes this
(`greeted_follow`), so that whether a client was answered can be told from its token:
`answersToken_follow` says so for every way of sending a token in time.
-/

namespace UnionFS

open Dialogue Wire

namespace Gate

variable {g : Gate} {t : Tree} {token : String}

/-- What is decided on a token, if it holds a text. -/
def verdict? (g : Gate) (t : Tree) (token : Bytes) : Option (Except HandshakeFailure Export) :=
  (Utf8.decode (keyBytes token)).map (g.decide t)

theorem verdict?_eq_some_iff {bytes : Bytes} {o : Except HandshakeFailure Export} :
    g.verdict? t bytes = some o ↔
      ∃ token, Utf8.decode (keyBytes bytes) = some token ∧ g.decide t token = o :=
  Option.map_eq_some_iff

/-- A decision is sent as one of the four answers to a handshake. -/
theorem isHandshakeReply_reply {o : Except HandshakeFailure Export} (h : g.Decides t token o) :
    (reply o).isHandshakeReply = true := by
  cases h <;> rfl

/-- An answer to a handshake cannot be taken for the start of another. -/
theorem eq_of_ofCommand_prefix {c c' : Command} {sent : Bytes} (h : ofCommand c <+: sent)
    (h' : ofCommand c' <+: sent) : c = c' := by
  have hword : ofCommand c = ofCommand c' :=
    (List.prefix_of_prefix_length_le h h' (Nat.le_refl 2)).eq_of_length rfl
  refine Command.word_injective ?_
  rw [← word_ofCommand c, hword, word_ofCommand]

end Gate

namespace Session

variable {s : Session} {g : Gate} {t : Tree} {e : Export}

/-! ## Past the handshake -/

/-- The handshake is over. -/
def Begun (s : Session) : Prop := s.stage = .active ∨ s.stage = .closed

theorem begun_await (now : Nat) {phase : Phase} (h : ∀ pending, phase ≠ .authenticating pending)
    (unread : Bytes) (timeout : UInt64) : (s.await now phase unread timeout).Begun := by
  rw [await]
  split
  · exact .inr rfl
  · cases phase with
    | authenticating pending => exact absurd rfl (h pending)
    | idle | half | busy => exact .inl rfl
    | closed => exact .inr rfl

theorem begun_serveAll (s : Session) (e : Export) (now : Nat) (t : Tree) (input : Bytes) :
    (s.serveAll e now t input).session.Begun := by
  fun_induction s.serveAll e now t input
  case case1 | case2 | case8 => exact begun_await _ (fun _ h => by cases h) _ _
  case case4 | case7 => exact .inr rfl
  case case3 ih | case5 ih | case6 ih => exact ih

/-- **There is no way back to the handshake.** -/
theorem Begun.resume (h : s.Begun) (now : Nat) (t : Tree) (input : Bytes) :
    (s.resume now t input).session.Begun := by
  rw [Session.resume]
  split
  case h_1 => exact h
  case h_2 e _ | h_3 e _ => exact begun_serveAll s e now t input
  case h_4 pending hphase =>
      rw [Begun, stage, hphase] at h
      rcases h with h | h <;> cases h
  case h_5 e pending _ =>
      dsimp only
      split
      · exact begun_serveAll s e now _ _
      · exact .inr rfl
      · split
        · exact .inr rfl
        · exact .inl rfl

theorem Begun.arrive (h : s.Begun) (now : Nat) (t : Tree) (bytes : Bytes) :
    (s.arrive now t bytes).session.Begun := by
  rw [Session.arrive]
  split
  · exact h
  · exact h.resume now t _

theorem Begun.pass (h : s.Begun) (time : Nat) : (s.pass time).Begun := by
  refine pass_of_runOut (fun s h => ?_) h time
  rw [runOut]
  split
  · exact h
  · next hphase =>
    dsimp only
    split
    · exact .inr rfl
    · rw [Begun, stage, hphase]
      exact .inl rfl
  · exact .inr rfl

/-! ## What is sent for a token -/

/-- **With its last byte a token is decided on.** -/
theorem resume_token (h : s.phase = .authenticating g.login) {token : Bytes}
    (hwidth : token.length = tokenWidth) (now : Nat) (t : Tree) (rest : Bytes) :
    s.resume now t (token ++ rest) =
      match g.verdict? t token with
      | none => ⟨s.finish now, t, []⟩
      | some (.error failure) => ⟨s.finish now, t, ofCommand failure.reply⟩
      | some (.ok e) => (s.serveAll e now t rest).after (ofCommand .accept) := by
  rw [resume, h]
  dsimp only
  rw [g.feed_login hwidth, Gate.verdict?]
  cases Utf8.decode (keyBytes token) with
  | none => rfl
  | some key =>
      dsimp only [Option.map_some]
      cases g.decide t key <;> rfl

/-- What a session has come to that has decided on a token, by what it has decided. -/
inductive Greeted (R : Reaction) : Option (Except HandshakeFailure Export) → Prop where
  | ignored : R.session.stage = .closed → R.sent = [] → Greeted R none
  | refused {failure : HandshakeFailure} :
    R.session.stage = .closed → R.sent = ofCommand failure.reply →
    Greeted R (some (.error failure))
  | accepted {e : Export} {served : Bytes} :
    R.session.Begun → R.sent = ofCommand .accept ++ served → Greeted R (some (.ok e))

variable {R R' : Reaction} {verdict : Option (Except HandshakeFailure Export)}

theorem greeted_token (h : s.phase = .authenticating g.login) {token : Bytes}
    (hwidth : token.length = tokenWidth) (now : Nat) (t : Tree) (rest : Bytes) :
    Greeted (s.resume now t (token ++ rest)) (g.verdict? t token) := by
  rw [resume_token h hwidth]
  rcases g.verdict? t token with _ | (failure | e)
  · exact .ignored rfl rfl
  · exact .refused rfl rfl
  · exact .accepted (begun_serveAll s e now t rest) rfl

/-- What has been sent stays sent, and a session that has ended sends nothing. -/
theorem Greeted.later (h : Greeted R verdict) (hbegun : R.session.Begun → R'.session.Begun)
    (hclosed : R.session.stage = .closed → R'.session.stage = .closed ∧ R'.sent = R.sent)
    (hsent : R.sent <+: R'.sent) : Greeted R' verdict := by
  cases h with
  | ignored hstage hnone =>
      obtain ⟨hstage', hsame⟩ := hclosed hstage
      exact .ignored hstage' (hsame.trans hnone)
  | refused hstage hreply =>
      obtain ⟨hstage', hsame⟩ := hclosed hstage
      exact .refused hstage' (hsame.trans hreply)
  | accepted hstage haccept =>
      obtain ⟨more, hmore⟩ := hsent
      rw [haccept, List.append_assoc] at hmore
      exact .accepted (hbegun hstage) hmore.symm

theorem Greeted.begun (h : Greeted R verdict) : R.session.Begun := by
  cases h with
  | ignored hstage | refused hstage => exact .inr hstage
  | accepted hbegun => exact hbegun

/-- The decision is the first that is sent. -/
theorem Greeted.answer {o : Except HandshakeFailure Export} (h : Greeted R (some o)) :
    ofCommand (Gate.reply o) <+: R.sent := by
  cases h with
  | refused _ hreply => exact ⟨[], by rw [hreply, List.append_nil]; rfl⟩
  | accepted _ haccept => exact ⟨_, haccept.symm⟩

/-! ## Silence -/

/-- The session sends nothing unless more arrives. -/
def Quiet (s : Session) : Prop := s.stage = .closed ∨ ∃ e, s.Resting e

theorem Resting.hangUp (h : s.Resting e) (now : Nat) (t : Tree) : (s.hangUp now t).sent = [] := by
  rw [Session.hangUp, resume, h.phase, h.unread]
  dsimp only
  rw [serveAll]

theorem Quiet.pass (h : s.Quiet) (time : Nat) : (s.pass time).Quiet := by
  refine pass_of_runOut (fun s h => ?_) h time
  rcases h with hclosed | ⟨e, hphase, hunread, hlistening⟩
  · obtain ⟨since, hphase⟩ := phase_of_closed hclosed
    rw [runOut, hphase]
    exact .inl hclosed
  · rw [runOut, hphase]
    dsimp only
    split
    · exact .inl rfl
    · exact .inr ⟨e, rfl, hunread, hlistening⟩

/-- **With nothing behind it, a token is answered with the decision alone.** -/
theorem quiet_token (h : s.phase = .authenticating g.login) (hlistening : s.ended = false)
    {token : Bytes} (hwidth : token.length = tokenWidth) (now : Nat) (t : Tree) :
    (s.resume now t (token ++ [])).session.Quiet ∧
      ∀ verdict, g.verdict? t token = some verdict →
        (s.resume now t (token ++ [])).sent = ofCommand (Gate.reply verdict) := by
  rw [resume_token h hwidth]
  rcases g.verdict? t token with _ | (failure | e)
  · exact ⟨.inl rfl, nofun⟩
  · refine ⟨.inl rfl, fun verdict hverdict => ?_⟩
    cases hverdict
    rfl
  · obtain ⟨s', hs', hrest⟩ := resting_serveAll_nil hlistening e now t
    dsimp only
    rw [hrest]
    refine ⟨.inr ⟨e, hs'⟩, fun verdict hverdict => ?_⟩
    cases hverdict
    exact List.append_nil _

end Session

namespace Course

open Session

variable {c : Course} {g : Gate} {t : Tree} {start now : Stamp} {past : List Arrival}
  {verdict : Option (Except HandshakeFailure Export)}

theorem begun_meet (h : c.session.Begun) (deed : Deed) : (c.meet deed).session.Begun := by
  cases deed with
  | send bytes => exact h.arrive c.now c.tree bytes
  | hangUp => exact .inr (closed_meet_hangUp c)
  | nothing => exact h

theorem begun_follow (h : c.session.Begun) (schedule : Schedule) :
    (c.follow schedule).session.Begun := by
  induction schedule generalizing c with
  | nil => exact h
  | cons turn rest ih =>
      rw [follow_cons]
      exact ih ((begun_meet h turn.deed).pass _)

/-- **An answer is not taken back, and no other follows.** -/
theorem greeted_follow (h : Greeted c.reaction verdict) (schedule : Schedule) :
    Greeted (c.follow schedule).reaction verdict := by
  refine h.later (begun_follow · schedule) (fun hclosed => ?_) (sent_prefix_follow c schedule)
  obtain ⟨hclosed', -, hsent⟩ := follow_of_closed hclosed schedule
  exact ⟨hclosed', hsent⟩

theorem greeted_wait (h : Greeted c.reaction verdict) (pause : Nat) :
    Greeted (c.wait pause).reaction verdict :=
  h.later (·.pass _) (fun hclosed => ⟨closed_wait hclosed pause, rfl⟩) (List.prefix_refl _)

/-- What a session comes to at the moment when it has the whole of its token, with `behind` after
it. -/
structure Decides (c : Course) (g : Gate) (t : Tree) (token behind : Bytes) : Prop where
  width : token.length = tokenWidth
  moment : ∃ (s : Session) (time : Nat), s.phase = .authenticating g.login ∧ s.ended = false ∧
    c.reaction = s.resume time t (token ++ behind)

theorem Decides.greeted {token behind : Bytes} (h : c.Decides g t token behind) :
    Greeted c.reaction (g.verdict? t token) := by
  obtain ⟨s, time, hphase, -, hmoment⟩ := h.moment
  rw [hmoment]
  exact greeted_token hphase h.width time t behind

/-- **A token that comes in time is decided on**, in whichever pieces it comes and whatever comes
after it.  The induction is on the turns that bring it. -/
theorem exists_decides (h : c.session.Waiting g start past now) (hnow : c.now = now.time)
    (htree : c.tree = t) (hsent : c.sent = []) {schedule : Schedule}
    (hreceives : g.Receives start (past ++ schedule.arrivals now)) :
    ∃ (c' : Course) (pause : Nat) (rest : Schedule) (token behind : List Arrival) (later : Stamp),
      c.follow schedule = (c'.wait pause).follow rest ∧
        c'.Decides g t (bytesOf token) (bytesOf behind) ∧
        past ++ schedule.arrivals now = token ++ (behind ++ rest.arrivals later) := by
  induction schedule generalizing c past now with
  | nil =>
      rw [Schedule.arrivals, List.append_nil] at hreceives
      exact absurd hreceives.whole (Nat.not_le.mpr h.short)
  | cons turn rest ih =>
      obtain ⟨deed, pause⟩ := turn
      rw [follow_cons]
      -- after a turn that leaves the token incomplete, the session is still waiting for it
      have next (c' : Course) {past' : List Arrival} (h' : c'.session.Waiting g start past' now)
          (hnow' : c'.now = c.now)
          (hreceives' : g.Receives start (past' ++ Schedule.arrivals rest (now.after pause))) :
          (c'.wait pause).session.Waiting g start past' (now.after pause) ∧
            (c'.wait pause).now = (now.after pause).time := by
        have hearly : now.time + pause < start.time + g.config.readTimeout.toNat :=
          Nat.lt_of_not_le fun hlate =>
            h'.not_receives hlate (fun _ => noLater_of_mem_arrivals) hreceives'
        obtain ⟨hsame, hlasts⟩ := h'.lasts hearly
        rw [← hnow, ← hnow'] at hsame
        refine ⟨?_, ?_⟩
        · rwa [wait, hsame]
        · rw [wait, hnow', hnow, Stamp.after]
      cases deed with
      | nothing =>
          obtain ⟨hwaiting, htime⟩ := next (c.meet .nothing) h rfl hreceives
          refine ih hwaiting htime htree ?_ hreceives
          show c.sent ++ [] = []
          rw [hsent, List.append_nil]
      | hangUp =>
          rw [Schedule.arrivals, List.append_nil] at hreceives
          exact absurd hreceives.whole (Nat.not_le.mpr h.short)
      | send bytes =>
          rw [Schedule.arrivals, ← List.append_assoc] at hreceives ⊢
          have hmeet : (c.meet (.send bytes)).reaction = c.session.arrive now.time t bytes := by
            simp only [reaction, meet, hsent, List.nil_append, hnow, htree]
          rcases h.arrive_cases t bytes with ⟨s', hwaiting, hstill⟩ |
            ⟨front, last, behind, hnew, hlen, hwhole⟩
          · rw [hstill] at hmeet
            have hsession : (c.meet (.send bytes)).session = s' := congrArg Reaction.session hmeet
            rw [← hsession] at hwaiting
            obtain ⟨hwaiting', htime⟩ := next (c.meet (.send bytes)) hwaiting rfl hreceives
            exact ih hwaiting' htime (congrArg Reaction.tree hmeet) (congrArg Reaction.sent hmeet)
              hreceives
          · rw [hwhole, bytesOf_append (past ++ front ++ [last])] at hmeet
            refine ⟨_, pause, rest, past ++ front ++ [last], behind, now.after pause, rfl, ?_, ?_⟩
            · exact ⟨by rw [length_bytesOf, hlen], _, _, h.phase, h.hears, hmeet⟩
            · rw [hnew]
              simp

theorem sent_of_quiet (h : c.session.Quiet) {schedule : Schedule}
    (hnone : schedule.arrivals now = []) : (c.follow schedule).sent = c.sent := by
  induction schedule generalizing c now with
  | nil => rfl
  | cons turn rest ih =>
      obtain ⟨deed, pause⟩ := turn
      rw [follow_cons]
      cases deed with
      | nothing =>
          rw [ih (h.pass _) hnone]
          exact List.append_nil _
      | send bytes =>
          obtain ⟨hbytes, hrest⟩ := List.append_eq_nil_iff.mp hnone
          obtain rfl := List.map_eq_nil_iff.mp hbytes
          rw [ih (h.pass _) hrest]
          exact List.append_nil _
      | hangUp =>
          obtain ⟨-, -, hsent⟩ := follow_of_closed (closed_wait (closed_meet_hangUp c) pause) rest
          rw [hsent]
          show c.sent ++ (c.session.hangUp c.now c.tree).sent = c.sent
          have hquiet : (c.session.hangUp c.now c.tree).sent = [] := by
            rcases h with hclosed | ⟨e, hresting⟩
            · rw [hangUp_of_closed hclosed]
            · exact hresting.hangUp c.now c.tree
          rw [hquiet, List.append_nil]

/-! ## Every token -/

/-- What has been sent to a client whose token came whole and in time. -/
structure AnswersToken (c : Course) (g : Gate) (t : Tree) (arrivals : List Arrival)
    (token : Bytes) : Prop where
  /-- The handshake is over. -/
  begun : c.session.Begun
  /-- One of the four answers was sent, before anything else, exactly if the token holds a text. -/
  answered : (∃ reply : Command, reply.isHandshakeReply = true ∧ ofCommand reply <+: c.sent) ↔
    (Utf8.decode (keyBytes token)).isSome = true
  /-- It is the one that the key calls for, and no other. -/
  reply : ∀ key, Utf8.decode (keyBytes token) = some key → ∀ reply : Command,
    ofCommand reply <+: c.sent ↔ reply = Gate.reply (g.decide t key)
  /-- Nothing follows a refusal but the end of the session. -/
  refused : ∀ key failure, Utf8.decode (keyBytes token) = some key →
    g.decide t key = .error failure →
      c.sent = ofCommand failure.reply ∧ c.session.stage = .closed
  /-- Where nothing follows the token, nothing follows the answer. -/
  alone : ∀ key, Utf8.decode (keyBytes token) = some key → arrivals.length = tokenWidth →
    c.sent = ofCommand (Gate.reply (g.decide t key))
  /-- A token without a text ends the session, and is not answered. -/
  unanswered : Utf8.decode (keyBytes token) = none → c.sent = [] ∧ c.session.stage = .closed

theorem not_prefix_nil (reply : Command) : ¬ ofCommand reply <+: [] := fun h =>
  List.cons_ne_nil _ _ (List.prefix_nil.mp h)

/-- **A token that comes in time is answered exactly if it holds a text**, however it is sent and
whatever else is. -/
theorem answersToken_follow (g : Gate) (t : Tree) (now : Nat) (schedule : Schedule)
    (h : g.Receives ⟨now, 0⟩ (schedule.arrivals ⟨now, 0⟩)) :
    ((Course.start g t now).follow schedule).AnswersToken g t (schedule.arrivals ⟨now, 0⟩)
      (bytesOf ((schedule.arrivals ⟨now, 0⟩).take tokenWidth)) := by
  obtain ⟨c', pause, rest, token, behind, later, hfollow, hdecides, harrivals⟩ :=
    exists_decides (c := Course.start g t now) (t := t) (waiting_start g now) rfl rfl rfl h
  rw [List.nil_append] at harrivals
  have hwidth : token.length = tokenWidth := by rw [← length_bytesOf, hdecides.width]
  rw [harrivals, List.take_left' hwidth, hfollow]
  have hgreeted := greeted_follow (greeted_wait hdecides.greeted pause) rest
  have hverdict (key : String) (hkey : Utf8.decode (keyBytes (bytesOf token)) = some key) :
      g.verdict? t (bytesOf token) = some (g.decide t key) :=
    Gate.verdict?_eq_some_iff.mpr ⟨key, hkey, rfl⟩
  have hanswer (key : String) (hkey : Utf8.decode (keyBytes (bytesOf token)) = some key) :
      ofCommand (Gate.reply (g.decide t key)) <+: ((c'.wait pause).follow rest).sent := by
    rw [hverdict key hkey] at hgreeted
    exact hgreeted.answer
  have hunanswered (hnone : Utf8.decode (keyBytes (bytesOf token)) = none) :
      ((c'.wait pause).follow rest).sent = [] ∧
        ((c'.wait pause).follow rest).session.stage = .closed := by
    rw [Gate.verdict?, hnone, Option.map_none] at hgreeted
    cases hgreeted with
    | ignored hstage hsent => exact ⟨hsent, hstage⟩
  constructor
  case begun => exact hgreeted.begun
  case answered =>
      constructor
      · rintro ⟨reply, -, hsent⟩
        rw [Option.isSome_iff_ne_none]
        intro hnone
        rw [(hunanswered hnone).1] at hsent
        exact not_prefix_nil reply hsent
      · intro hsome
        obtain ⟨key, hkey⟩ := Option.isSome_iff_exists.mp hsome
        exact ⟨_, Gate.isHandshakeReply_reply (g.decides_decide t key), hanswer key hkey⟩
  case reply =>
      intro key hkey reply
      constructor
      · intro hsent
        exact Gate.eq_of_ofCommand_prefix hsent (hanswer key hkey)
      · rintro rfl
        exact hanswer key hkey
  case refused =>
      intro key failure hkey hdecide
      rw [hverdict key hkey, hdecide] at hgreeted
      cases hgreeted with
      | refused hstage hsent => exact ⟨hsent, hstage⟩
  case alone =>
      intro key hkey hlen
      -- nothing came with the end of the token, and nothing comes later
      obtain ⟨hbehind, hlater⟩ : behind = [] ∧ rest.arrivals later = [] := by
        rw [List.length_append, hwidth, Nat.add_eq_left] at hlen
        exact List.append_eq_nil_iff.mp (List.eq_nil_of_length_eq_zero hlen)
      obtain ⟨s, time, hphase, hlistening, hmoment⟩ := hdecides.moment
      obtain ⟨hquiet, hsent⟩ := quiet_token hphase hlistening hdecides.width time t
      rw [hbehind] at hmoment
      change c'.reaction = s.resume time t (bytesOf token ++ []) at hmoment
      rw [← hmoment] at hquiet hsent
      rw [sent_of_quiet (hquiet.pass _) hlater]
      exact hsent _ (hverdict key hkey)
  case unanswered => exact hunanswered

/-- A token that comes in two pieces, with a pause between them. -/
def sampleToken : Schedule := [
  ⟨.send ((ofKey "key").take 100), 4000⟩, ⟨.send ((ofKey "key").drop 100), 0⟩]

theorem answersToken_follow_sample :
    sampleGate.Receives ⟨0, 0⟩ (sampleToken.arrivals ⟨0, 0⟩) ∧
      ((Course.start sampleGate sampleTree 0).follow sampleToken).AnswersToken sampleGate sampleTree
        (sampleToken.arrivals ⟨0, 0⟩)
        (bytesOf ((sampleToken.arrivals ⟨0, 0⟩).take tokenWidth)) := by
  have hreceives : sampleGate.Receives ⟨0, 0⟩ (sampleToken.arrivals ⟨0, 0⟩) := by
    refine ⟨by decide +kernel, fun x hx => ?_⟩
    simp only [sampleToken, Schedule.arrivals, List.append_nil] at hx
    rcases List.mem_append.mp (List.mem_of_mem_take hx) with hx | hx
    · rw [stamp_of_mem_arriving hx]
      exact .refl _ _
    · rw [stamp_of_mem_arriving hx]
      exact .inr (by decide)
  exact ⟨hreceives, answersToken_follow sampleGate sampleTree 0 sampleToken hreceives⟩

set_option maxRecDepth 10000 in
/-- A whole token that holds no text ends the session, and nothing was sent. -/
theorem not_always_answered :
    let token : Bytes := List.replicate tokenWidth 0xff
    let c := (Course.start sampleGate sampleTree 0).follow [⟨.send token, 0⟩]
    token.length = tokenWidth ∧ c.session.stage = .closed ∧
      ¬ ∃ reply : Command, reply.isHandshakeReply = true ∧ ofCommand reply <+: c.sent := by
  have hsent : ((Course.start sampleGate sampleTree 0).follow
      [⟨.send (List.replicate tokenWidth 0xff), 0⟩]).sent = [] := by cbv
  refine ⟨List.length_replicate, by cbv, ?_⟩
  rintro ⟨reply, -, hprefix⟩
  rw [hsent] at hprefix
  exact not_prefix_nil reply hprefix

end Course

end UnionFS
