import UnionFS.Proofs.Session.Rounds
import UnionFS.Proofs.Tree.Outline

/-!
# Whole sessions

A session as its client meets it, from the first byte to its end, for every schedule.  While the
token is incomplete it waits (`Waiting`); then it has turned the client away (`Denied`) or serves
its rounds on the export that the token opened (`Told`).  Each event leads from one of these to one
of these (`Come.send`, `Come.wait`), so that what a session has sent in the end, and what has become
of the tree, is told by the arrivals alone (`Came.follow`).  `answers_toEnd` says what a client hears
that is not admitted, and one that is.
-/

namespace UnionFS

open Dialogue Wire

/-! ## The token -/

namespace Gate

variable {g : Gate} {t : Tree} {start : Stamp} {arrivals rest : List Arrival} {e : Export}
  {i : Interval}

/-- What is known of the token of a client that is admitted. -/
theorem Admits.token (h : g.Admits t start arrivals e i rest) :
    tokenWidth ≤ arrivals.length ∧
      (∀ x ∈ arrivals.take tokenWidth, x.stamp.InTime start g.config.readTimeout.toNat) ∧
      ∃ key entry, Utf8.decode (keyBytes (bytesOf (arrivals.take tokenWidth))) = some key ∧
        g.keys.First key entry ∧ g.Opens t entry e := by
  cases h with
  | @admitted token rest last key entry e hlen htimely hkey hfirst hopens =>
      have hsplit : token ++ last :: rest = (token ++ [last]) ++ rest := by simp
      rw [hsplit, List.take_left' hlen]
      refine ⟨?_, htimely, key, entry, hkey, hfirst, hopens⟩
      rw [List.length_append, hlen]
      exact Nat.le_add_right _ _

theorem Admits.tree (h : g.Admits t start arrivals e i rest) : i.tree = t := by
  cases h
  rfl

/-- What arrives later does not take an admission back. -/
theorem Admits.append (h : g.Admits t start arrivals e i rest) (more : List Arrival) :
    g.Admits t start (arrivals ++ more) e i (rest ++ more) := by
  cases h with
  | admitted hlen htimely hkey hfirst hopens =>
      rw [List.append_assoc, List.cons_append]
      exact .admitted hlen htimely hkey hfirst hopens

/-- A whole token arrives before the wait for it runs out. -/
structure Receives (g : Gate) (start : Stamp) (arrivals : List Arrival) : Prop where
  whole : tokenWidth ≤ arrivals.length
  timely : ∀ x ∈ arrivals.take tokenWidth, x.stamp.InTime start g.config.readTimeout.toNat

/-- With less than a token, nothing is decided. -/
theorem feed_login_short {part : Bytes} (h : part.length < tokenWidth) (t : Tree) :
    g.login.feed part t = ⟨g.login, [], part, t⟩ := by
  show Dialogue.feed (.receive tokenWidth _) part t = _
  rw [feed, if_neg (Nat.not_le.mpr h)]
  rfl

end Gate

namespace Session

variable {s : Session} {R : Reaction} {g : Gate} {t : Tree} {e : Export} {i : Interval}
  {start now : Stamp} {past input : List Arrival}

/-- The session waits for its token, and `past` has arrived of it. -/
structure Waiting (s : Session) (g : Gate) (start : Stamp) (past : List Arrival) (now : Stamp) :
    Prop where
  gate : s.gate = g
  phase : s.phase = .authenticating g.login
  unread : s.unread = bytesOf past
  hears : s.ended = false
  heartbeat : s.heartbeat = {}
  deadline : s.deadline = start.time + g.config.readTimeout.toNat
  short : past.length < tokenWidth
  timely : ∀ x ∈ past, x.stamp.InTime start g.config.readTimeout.toNat
  earlier : start.NoLater now
  wait : now.InTime start g.config.readTimeout.toNat

/-- Nothing was sent, or one word that says why. -/
def Refused (sent : Bytes) : Prop :=
  sent = [] ∨ ∃ failure ∈ [HandshakeFailure.invalidKey, .mountNotFound, .userNotFound],
    sent = ofCommand failure.reply

/-- The session has ended without letting the client in, and nothing that comes later lets it in. -/
structure Denied (R : Reaction) (g : Gate) (t : Tree) (start : Stamp) (past : List Arrival)
    (now : Stamp) : Prop where
  closed : R.session.stage = .closed
  tree : R.tree = t
  sent : Refused R.sent
  never : ∀ later : List Arrival, (∀ z ∈ later, now.NoLater z.stamp) → ∀ e i rest,
    ¬ g.Admits t start (past ++ later) e i rest

/-- What a session has come to since its start. -/
inductive Come (R : Reaction) (g : Gate) (t : Tree) (start : Stamp) (past : List Arrival)
    (now : Stamp) : Prop where
  | waiting : R.session.Waiting g start past now → R.tree = t → R.sent = [] →
    Come R g t start past now
  | denied : Denied R g t start past now → Come R g t start past now
  | entered {e : Export} {i : Interval} {rest : List Arrival} {R' : Reaction} :
    g.Admits t start past e i rest → R = R'.after (ofCommand .accept) →
    Told R' g e i rest now → Come R g t start past now

theorem waiting_start (g : Gate) (now : Nat) :
    (Session.start g now).Waiting g ⟨now, 0⟩ [] ⟨now, 0⟩ where
  gate := rfl
  phase := rfl
  unread := rfl
  hears := rfl
  heartbeat := rfl
  deadline := rfl
  short := by decide
  timely := List.forall_mem_nil _
  earlier := .refl _
  wait := .refl _ _

/-- With less than a token nobody has been admitted. -/
theorem Waiting.not_admits (h : s.Waiting g start past now) {rest : List Arrival} :
    ¬ g.Admits t start past e i rest := by
  intro hadmits
  exact absurd hadmits.token.1 (Nat.not_le.mpr h.short)

/-- The end of the token has arrived. -/
theorem Waiting.split (h : s.Waiting g start past now) {new : List Arrival}
    (hlong : tokenWidth ≤ (past ++ new).length) :
    ∃ front last rest, new = front ++ last :: rest ∧
      (past ++ front ++ [last]).length = tokenWidth := by
  have hshort := h.short
  rw [List.length_append] at hlong
  have hlt : tokenWidth - past.length - 1 < new.length := by omega
  refine ⟨new.take (tokenWidth - past.length - 1), new[tokenWidth - past.length - 1],
    new.drop (tokenWidth - past.length - 1 + 1), ?_, ?_⟩
  · rw [List.getElem_cons_drop, List.take_append_drop]
  · simp only [List.length_append, List.length_take, List.length_singleton]
    omega

/-! ## What a session does with its token -/

/-- A decision against the client says why. -/
theorem refused_reply {key : String} {failure : HandshakeFailure}
    (h : g.decide t key = .error failure) : Refused (ofCommand failure.reply) := by
  cases Gate.decide_eq_iff.mp h with
  | invalidKey => exact .inr ⟨_, by simp, rfl⟩
  | userNotFound => exact .inr ⟨_, by simp, rfl⟩
  | mountNotFound => exact .inr ⟨_, by simp, rfl⟩

/-- Whom the token turns away is turned away for good. -/
theorem never_admits {token rest : List Arrival} (hlen : token.length = tokenWidth)
    (h : ∀ key e, Utf8.decode (keyBytes (bytesOf token)) = some key → g.decide t key ≠ .ok e)
    (later : List Arrival) :
    ∀ e i rest', ¬ g.Admits t start (token ++ rest ++ later) e i rest' := by
  intro e i rest' hadmits
  obtain ⟨-, -, key, entry, hkey, hfirst, hopens⟩ := hadmits.token
  rw [List.append_assoc, List.take_left' hlen] at hkey
  exact h key e hkey (Gate.decide_eq_iff.mpr (.accepted hfirst hopens))

/-- Whom the token lets in has been in time. -/
theorem Waiting.admits (h : s.Waiting g start past now) {front rest : List Arrival}
    {last : Arrival} (hlen : (past ++ front ++ [last]).length = tokenWidth)
    (hnew : ∀ z ∈ front ++ last :: rest, z.stamp = now) {key : String}
    (hkey : Utf8.decode (keyBytes (bytesOf (past ++ front ++ [last]))) = some key)
    (hdecide : g.decide t key = .ok e) :
    g.Admits t start (past ++ front ++ [last] ++ rest) e ⟨now, 0, t⟩ rest := by
  obtain ⟨hfront, hrest⟩ := List.forall_mem_append.mp hnew
  obtain ⟨rfl, -⟩ := List.forall_mem_cons.mp hrest
  obtain ⟨entry, hfirst, hopens⟩ : ∃ entry, g.keys.First key entry ∧ g.Opens t entry e := by
    cases Gate.decide_eq_iff.mp hdecide with
    | accepted hfirst hopens => exact ⟨_, hfirst, hopens⟩
  have htimely : ∀ x ∈ past ++ front ++ [last],
      x.stamp.InTime start g.config.readTimeout.toNat := by
    intro x hx
    rw [List.append_assoc] at hx
    rcases List.mem_append.mp hx with hx | hx
    · exact h.timely x hx
    · have hpresent : x.stamp = last.stamp := by
        rcases List.mem_append.mp hx with hx | hx
        · exact hfront x hx
        · rw [List.mem_singleton.mp hx]
      rw [hpresent]
      exact h.wait
  rw [List.append_assoc (past ++ front)]
  exact .admitted hlen htimely hkey hfirst hopens

/-- **With the last byte of the token the decision falls.** -/
theorem Waiting.decide (h : s.Waiting g start past now) {front rest : List Arrival}
    {last : Arrival} (hlen : (past ++ front ++ [last]).length = tokenWidth)
    (hnew : ∀ z ∈ front ++ last :: rest, z.stamp = now) :
    Come (s.resume now.time t (bytesOf (past ++ front ++ [last] ++ rest))) g t start
      (past ++ front ++ [last] ++ rest) now := by
  have hwidth : (bytesOf (past ++ front ++ [last])).length = tokenWidth := by
    rw [length_bytesOf, hlen]
  rw [resume, h.phase, bytesOf_append (past ++ front ++ [last])]
  dsimp only
  rw [g.feed_login hwidth]
  cases hkey : Utf8.decode (keyBytes (bytesOf (past ++ front ++ [last]))) with
  | none =>
      -- no text, and no answer
      refine .denied ⟨rfl, rfl, .inl rfl, fun later _ => ?_⟩
      refine never_admits hlen (fun key e hkey' => ?_) later
      cases hkey.symm.trans hkey'
  | some key =>
      dsimp only
      cases hdecide : g.decide t key with
      | error failure =>
          refine .denied ⟨rfl, rfl, refused_reply hdecide, fun later _ => ?_⟩
          refine never_admits hlen (fun key' e hkey' => ?_) later
          cases hkey.symm.trans hkey'
          rw [hdecide]
          intro hsame
          cases hsame
      | ok e =>
          have hlistening : s.Listening g := by
            refine ⟨h.gate, h.hears, ?_, ?_⟩ <;> rw [h.heartbeat]
            decide
          have hrest : ∀ z ∈ rest, z.stamp = now := fun z hz => hnew z (by simp [hz])
          have hready : s.Ready ⟨now, 0, t⟩ now rest := .of_now rfl (by rw [h.heartbeat]) hrest
          exact .entered (h.admits hlen hnew hkey hdecide) rfl
            (told_serveAll e now _ hlistening _ rest (Nat.le_refl _) hready)

/-- Where the token does not end, the session goes on waiting. -/
theorem Waiting.more (h : s.Waiting g start past now) (t : Tree) {new : List Arrival}
    (hnew : ∀ z ∈ new, z.stamp = now) (hshort : (past ++ new).length < tokenWidth) :
    ∃ s' : Session, s'.Waiting g start (past ++ new) now ∧
      s.resume now.time t (bytesOf (past ++ new)) = ⟨s', t, []⟩ := by
  have hpart : (bytesOf (past ++ new)).length < tokenWidth := by rwa [length_bytesOf]
  have hwaits : g.login.outcome? = none := rfl
  rw [resume, h.phase]
  dsimp only
  rw [g.feed_login_short hpart]
  dsimp only
  rw [hwaits, h.hears]
  dsimp only
  rw [if_neg Bool.false_ne_true]
  refine ⟨_, ?_, rfl⟩
  exact {
    gate := h.gate
    phase := rfl
    unread := rfl
    hears := rfl
    heartbeat := h.heartbeat
    deadline := h.deadline
    short := hshort
    timely := List.forall_mem_append.mpr ⟨h.timely, fun z hz => hnew z hz ▸ h.wait⟩
    earlier := h.earlier
    wait := h.wait }

/-- What arrives leaves the token incomplete, or has the end of it. -/
theorem Waiting.arrive_cases (h : s.Waiting g start past now) (t : Tree) (bytes : Bytes) :
    (∃ s' : Session, s'.Waiting g start (past ++ arriving bytes now) now ∧
      s.arrive now.time t bytes = ⟨s', t, []⟩) ∨
    ∃ front last rest, arriving bytes now = front ++ last :: rest ∧
      (past ++ front ++ [last]).length = tokenWidth ∧
      s.arrive now.time t bytes =
        s.resume now.time t (bytesOf (past ++ front ++ [last] ++ rest)) := by
  rw [Session.arrive]
  split
  · next hempty =>
    obtain rfl := List.isEmpty_iff.mp hempty
    refine .inl ⟨s, ?_, rfl⟩
    rwa [arriving, List.map_nil, List.append_nil]
  have hbytes : s.unread ++ bytes = bytesOf (past ++ arriving bytes now) := by
    rw [bytesOf_append, bytesOf_arriving, h.unread]
  rw [hbytes]
  by_cases hshort : (past ++ arriving bytes now).length < tokenWidth
  · exact .inl (h.more t (fun z => stamp_of_mem_arriving) hshort)
  · obtain ⟨front, last, rest, hnew, hlen⟩ := h.split (Nat.not_lt.mp hshort)
    refine .inr ⟨front, last, rest, hnew, hlen, ?_⟩
    rw [hnew]
    simp

/-- **A session that waits for its token takes what arrives.** -/
theorem Waiting.arrive (h : s.Waiting g start past now) (t : Tree) (bytes : Bytes) :
    Come (s.arrive now.time t bytes) g t start (past ++ arriving bytes now) now := by
  rcases h.arrive_cases t bytes with ⟨s', hwaiting, harrive⟩ | ⟨front, last, rest, hnew, hlen, hall⟩
  · rw [harrive]
    exact .waiting hwaiting rfl rfl
  · have hsplit : past ++ arriving bytes now = past ++ front ++ [last] ++ rest := by
      rw [hnew]
      simp
    have hnow : ∀ z ∈ arriving bytes now, z.stamp = now := fun z => stamp_of_mem_arriving
    rw [hnew] at hnow
    rw [hall, hsplit]
    exact h.decide hlen hnow

theorem Waiting.limit (h : s.Waiting g start past now) :
    s.limit? = some (start.time + g.config.readTimeout.toNat) := by
  rw [limit?, h.phase, h.deadline]

/-- Once the wait for it has run out, the rest of a token is too late. -/
theorem Waiting.not_receives (h : s.Waiting g start past now) {pause : Nat}
    (hlate : start.time + g.config.readTimeout.toNat ≤ now.time + pause) {later : List Arrival}
    (hlater : ∀ z ∈ later, (now.after pause).NoLater z.stamp) :
    ¬ g.Receives start (past ++ later) := by
  rintro ⟨hwhole, htimely⟩
  cases later with
  | nil =>
      rw [List.append_nil] at hwhole
      exact absurd hwhole (Nat.not_le.mpr h.short)
  | cons z later =>
      have htoken : past ++ [z] <+: (past ++ z :: later).take tokenWidth :=
        List.prefix_take_iff.mpr ⟨by simp, by rw [List.length_append]; exact h.short⟩
      exact Stamp.not_inTime_of_later h.earlier hlate (hlater z (by simp))
        (htimely z (htoken.subset (by simp)))

/-- Before that, time does nothing to the session. -/
theorem Waiting.lasts (h : s.Waiting g start past now) {pause : Nat}
    (hearly : now.time + pause < start.time + g.config.readTimeout.toNat) :
    s.pass (now.time + pause) = s ∧ s.Waiting g start past (now.after pause) :=
  ⟨pass_of_lt (h.deadline.symm ▸ hearly),
    { h with earlier := h.earlier.after pause, wait := .inr hearly }⟩

/-- **Time leaves a session waiting for its token, or ends it.** -/
theorem Waiting.pass (h : s.Waiting g start past now) (t : Tree) (pause : Nat) :
    Come ⟨s.pass (now.time + pause), t, []⟩ g t start past (now.after pause) := by
  by_cases hlate : start.time + g.config.readTimeout.toNat ≤ now.time + pause
  · have hceiling : s.heartbeat.threshold ≤ Heartbeat.ceiling := by
      rw [h.heartbeat]
      decide
    refine .denied ⟨closed_pass h.limit hlate hceiling, rfl, .inl rfl, fun later hlater => ?_⟩
    intro e i rest hadmits
    obtain ⟨hwhole, htimely, -⟩ := hadmits.token
    exact h.not_receives hlate hlater ⟨hwhole, htimely⟩
  · obtain ⟨hsame, hwaiting⟩ := h.lasts (Nat.not_le.mp hlate)
    rw [hsame]
    exact .waiting hwaiting rfl rfl

/-- **When the client closes its side, a session without its token ends.** -/
theorem Waiting.hangUp (h : s.Waiting g start past now) (t : Tree) (time : Nat) :
    s.hangUp time t = ⟨({ s with ended := true } : Session).finish time, t, []⟩ := by
  rw [Session.hangUp, resume, h.phase, h.unread]
  dsimp only
  rw [g.feed_login_short (by rw [length_bytesOf]; exact h.short)]
  rfl

/-! ## What a session does that serves -/

theorem arrive_of_closed (h : s.stage = .closed) (now : Nat) (t : Tree) (bytes : Bytes) :
    s.arrive now t bytes = ⟨s, t, []⟩ := by
  obtain ⟨since, hphase⟩ := phase_of_closed h
  rw [Session.arrive, resume, hphase]
  exact ite_self _

theorem hangUp_of_closed (h : s.stage = .closed) (time : Nat) (t : Tree) :
    s.hangUp time t = ⟨{ s with ended := true }, t, []⟩ := by
  obtain ⟨since, hphase⟩ := phase_of_closed h
  rw [Session.hangUp, resume, hphase]

/-- What arrives once a session has ended is too late, or the rest of what had begun. -/
theorem Over.arrive (h : s.Over g i e past now) (bytes : Bytes) :
    s.Over g i e (past ++ arriving bytes now) now where
  closed := h.closed
  fate := by
    cases h.fate with
    | broken hcount hfirst => exact .broken hcount hfirst
    | expired hexpired hlate hearlier hover =>
        refine .expired hexpired (List.forall_mem_append.mpr ⟨hlate, fun z hz => ?_⟩) hearlier hover
        rw [stamp_of_mem_arriving hz]
        exact hover
  stuck later hlater := by
    -- it would have made no round, since it is not earlier than what came before
    rw [List.append_assoc]
    exact h.stuck _ (List.forall_mem_append.mpr ⟨fun _ => noLater_of_mem_arriving, hlater⟩)

/-- Time does not change that. -/
theorem Over.after (h : s.Over g i e past now) (pause : Nat) :
    s.Over g i e past (now.after pause) where
  closed := h.closed
  fate := by
    have hlater := (Stamp.NoLater.refl now).after pause
    cases h.fate with
    | broken hcount hfirst => exact .broken hcount hfirst
    | expired hexpired hlate hearlier hover =>
        exact .expired hexpired hlate (hearlier.after pause)
          (Stamp.not_inTime_mono hearlier hover hlater)
  stuck later hlater := h.stuck later fun z hz =>
    ((Stamp.NoLater.refl now).after pause).trans (hlater z hz)

theorem Told.arrive (h : Told R g e i input now) (bytes : Bytes) :
    Told ((R.session.arrive now.time R.tree bytes).after R.sent) g e i
      (input ++ arriving bytes now) now := by
  obtain ⟨rounds, j, part, said, ⟨hhistory, hheard, htree, hsent, hfirst, hstate⟩⟩ := h
  rw [htree, hsent, hheard, List.append_assoc]
  rcases hstate with ⟨hlistening, hwithin⟩ | hover
  · have htold := Told.append hhistory (hwithin.arrive hlistening bytes)
    rwa [Reaction.after_after] at htold
  · rw [arrive_of_closed hover.closed]
    exact ⟨rounds, j, part ++ arriving bytes now, said, hhistory, rfl, rfl, List.append_nil _,
      hfirst, .inr (hover.arrive bytes)⟩

theorem Told.pass (h : Told R g e i input now) (pause : Nat) :
    Told ⟨R.session.pass (now.time + pause), R.tree, R.sent⟩ g e i input (now.after pause) := by
  obtain ⟨rounds, j, part, said, ⟨hhistory, hheard, htree, hsent, hfirst, hstate⟩⟩ := h
  rw [htree, hsent, hheard]
  rcases hstate with ⟨hlistening, hwithin⟩ | hover
  · exact Told.append hhistory (hwithin.pass hlistening pause)
  · rw [pass_of_closed hover.closed]
    exact ⟨rounds, j, part, said, hhistory, rfl, rfl, rfl, hfirst, .inr (hover.after pause)⟩

theorem Told.hangUp (h : Told R g e i input now) (time : Nat) :
    ∃ s : Session, R.session.hangUp time R.tree = ⟨s, R.tree, []⟩ := by
  obtain ⟨rounds, j, part, said, ⟨-, -, htree, -, -, hstate⟩⟩ := h
  rw [htree]
  rcases hstate with ⟨-, hwithin⟩ | hover
  · exact ⟨_, hwithin.hangUp time⟩
  · exact ⟨_, hangUp_of_closed hover.closed time j.tree⟩

theorem toEnd_of_closed (h : s.stage = .closed) : s.toEnd = s := by
  obtain ⟨since, hsince⟩ := closedAt_of_closed h
  exact go_toEnd_of_closed _ hsince

theorem Told.toEnd (h : Told R g e i input now) : R.session.toEnd.stage = .closed := by
  obtain ⟨rounds, j, part, said, hstanding⟩ := h
  rcases hstanding.state with ⟨hlistening, -⟩ | hover
  · refine closed_toEnd ?_
    rw [hlistening.threshold]
    decide
  · rw [toEnd_of_closed hover.closed]
    exact hover.closed

/-- The rounds that have been served are all that have arrived. -/
theorem Told.whole (h : Told R g e i input now) :
    ∃ rounds said, i.Whole g.config e input rounds ∧
      R.tree = e.carryOut i.tree (rounds.flatMap (·.writes)) ∧
      R.sent = rounds.flatMap (·.sent) ++ said ∧ (said = [] ∨ said = ofCode 0) := by
  obtain ⟨rounds, j, part, said, ⟨hhistory, hheard, htree, hsent, hfirst, hstate⟩⟩ := h
  refine ⟨rounds, said, ⟨j, part, hhistory, hheard, ?_⟩, ?_, hsent, hfirst⟩
  · rcases hstate with ⟨-, hwithin⟩ | hover
    · exact hwithin.stuck g.config
    · have hnow := hover.stuck [] (List.forall_mem_nil _)
      rwa [List.append_nil] at hnow
  · rw [htree, hhistory.tree]

/-! ## From event to event -/

theorem Denied.later (h : Denied R g t start past now) {more : List Arrival} {now' : Stamp}
    (hmore : ∀ z ∈ more, now.NoLater z.stamp) (hnow : now.NoLater now') :
    Denied R g t start (past ++ more) now' where
  closed := h.closed
  tree := h.tree
  sent := h.sent
  never later hlater := by
    rw [List.append_assoc]
    refine h.never _ (List.forall_mem_append.mpr ⟨hmore, fun z hz => ?_⟩)
    exact hnow.trans (hlater z hz)

theorem Come.send (h : Come R g t start past now) (bytes : Bytes) :
    Come ((R.session.arrive now.time R.tree bytes).after R.sent) g t start
      (past ++ arriving bytes now) now := by
  cases h with
  | waiting hwaiting htree hsent =>
      rw [htree, hsent]
      exact hwaiting.arrive t bytes
  | denied hdenied =>
      have hsame : (Reaction.mk R.session R.tree []).after R.sent = R := by
        rw [Reaction.after, List.append_nil]
      rw [arrive_of_closed hdenied.closed, hsame]
      exact .denied (hdenied.later (fun _ => noLater_of_mem_arriving) (.refl now))
  | @entered e i rest R' hadmits hR htold =>
      subst hR
      exact .entered (hadmits.append _) (Reaction.after_after _ _ _).symm (htold.arrive bytes)

theorem Come.wait (h : Come R g t start past now) (pause : Nat) :
    Come ⟨R.session.pass (now.time + pause), R.tree, R.sent⟩ g t start past (now.after pause) := by
  cases h with
  | waiting hwaiting htree hsent =>
      rw [htree, hsent]
      exact hwaiting.pass t pause
  | denied hdenied =>
      rw [pass_of_closed hdenied.closed]
      have hlater := hdenied.later (List.forall_mem_nil _) ((Stamp.NoLater.refl now).after pause)
      rw [List.append_nil] at hlater
      exact .denied hlater
  | entered hadmits hR htold =>
      subst hR
      exact .entered hadmits rfl (htold.pass pause)

/-- When the client closes its side, nothing is sent and the tree stays. -/
theorem Come.hangUp (h : Come R g t start past now) (time : Nat) :
    ∃ s : Session, R.session.hangUp time R.tree = ⟨s, R.tree, []⟩ := by
  cases h with
  | waiting hwaiting => exact ⟨_, hwaiting.hangUp R.tree time⟩
  | denied hdenied => exact ⟨_, hangUp_of_closed hdenied.closed time R.tree⟩
  | entered _ hR htold =>
      subst hR
      exact htold.hangUp time

theorem Come.toEnd (h : Come R g t start past now) : R.session.toEnd.stage = .closed := by
  cases h with
  | waiting hwaiting =>
      refine closed_toEnd ?_
      rw [hwaiting.heartbeat]
      decide
  | denied hdenied =>
      rw [toEnd_of_closed hdenied.closed]
      exact hdenied.closed
  | entered _ hR htold =>
      subst hR
      exact htold.toEnd

/-- The tree that a session leaves, and all that it has sent, told from what has arrived. -/
inductive Final (g : Gate) (t : Tree) (start : Stamp) (arrivals : List Arrival) :
    Tree → Bytes → Prop where
  | denied {sent : Bytes} :
    (∀ e i rest, ¬ g.Admits t start arrivals e i rest) → Refused sent →
    Final g t start arrivals t sent
  | served {e : Export} {i : Interval} {rest : List Arrival} {rounds : List Round}
    {said : Bytes} :
    g.Admits t start arrivals e i rest → i.Whole g.config e rest rounds →
    (said = [] ∨ said = ofCode 0) →
    Final g t start arrivals (e.carryOut t (rounds.flatMap (·.writes)))
      (ofCommand .accept ++ (rounds.flatMap (·.sent) ++ said))

theorem Come.final (h : Come R g t start past now) : Final g t start past R.tree R.sent := by
  cases h with
  | waiting hwaiting htree hsent =>
      rw [htree, hsent]
      exact .denied (fun _ _ _ => hwaiting.not_admits) (.inl rfl)
  | denied hdenied =>
      rw [hdenied.tree]
      refine .denied (fun e i rest => ?_) hdenied.sent
      have hnow := hdenied.never [] (List.forall_mem_nil _) e i rest
      rwa [List.append_nil] at hnow
  | entered hadmits hR htold =>
      subst hR
      obtain ⟨rounds, said, hwhole, htree, hsent, hfirst⟩ := htold.whole
      rw [hadmits.tree] at htree
      show Final g t start _ _ (_ ++ _)
      rw [Reaction.after, htree, hsent]
      exact .served hadmits hwhole hfirst

end Session

/-! ## Schedules -/

namespace Course

open Session

variable {c : Course} {g : Gate} {t : Tree} {start now : Stamp} {past : List Arrival}

/-- What a client does to a session that has ended changes nothing. -/
theorem meet_of_closed (h : c.session.stage = .closed) (deed : Deed) :
    (c.meet deed).session.stage = .closed ∧ (c.meet deed).tree = c.tree ∧
      (c.meet deed).sent = c.sent := by
  cases deed with
  | send bytes =>
      rw [meet]
      dsimp only
      rw [arrive_of_closed h]
      exact ⟨h, rfl, List.append_nil _⟩
  | hangUp =>
      rw [meet]
      dsimp only
      rw [hangUp_of_closed h]
      exact ⟨h, rfl, List.append_nil _⟩
  | nothing => exact ⟨h, rfl, List.append_nil _⟩

theorem closed_wait (h : c.session.stage = .closed) (pause : Nat) :
    (c.wait pause).session.stage = .closed := by
  rw [wait, pass_of_closed h]
  exact h

theorem follow_of_closed (h : c.session.stage = .closed) (schedule : Schedule) :
    (c.follow schedule).session.stage = .closed ∧ (c.follow schedule).tree = c.tree ∧
      (c.follow schedule).sent = c.sent := by
  induction schedule generalizing c with
  | nil => exact ⟨h, rfl, rfl⟩
  | cons turn rest ih =>
      obtain ⟨hclosed, htree, hsent⟩ := meet_of_closed h turn.deed
      rw [follow_cons, ← htree, ← hsent]
      exact ih (closed_wait hclosed turn.pause)

/-- The course has come so far by the time `now`. -/
def Came (c : Course) (g : Gate) (t : Tree) (start : Stamp) (past : List Arrival) (now : Stamp) :
    Prop :=
  Come c.reaction g t start past now ∧ c.now = now.time

theorem came_start (g : Gate) (t : Tree) (now : Nat) :
    (Course.start g t now).Came g t ⟨now, 0⟩ [] ⟨now, 0⟩ :=
  ⟨.waiting (waiting_start g now) rfl rfl, rfl⟩

theorem Came.nothing (h : c.Came g t start past now) :
    (c.meet .nothing).Came g t start past now := by
  obtain ⟨hcome, hnow⟩ := h
  refine ⟨?_, hnow⟩
  rwa [reaction, meet, List.append_nil]

theorem Came.send (h : c.Came g t start past now) (bytes : Bytes) :
    (c.meet (.send bytes)).Came g t start (past ++ arriving bytes now) now := by
  obtain ⟨hcome, hnow⟩ := h
  have hsend := hcome.send bytes
  rw [← hnow] at hsend
  exact ⟨hsend, hnow⟩

theorem Came.hangUp (h : c.Came g t start past now) :
    (c.meet .hangUp).tree = c.tree ∧ (c.meet .hangUp).sent = c.sent := by
  obtain ⟨s, hhangUp⟩ := h.1.hangUp c.now
  change c.session.hangUp c.now c.tree = ⟨s, c.tree, []⟩ at hhangUp
  rw [meet]
  dsimp only
  rw [hhangUp]
  exact ⟨rfl, List.append_nil _⟩

theorem Came.wait (h : c.Came g t start past now) (pause : Nat) :
    (c.wait pause).Came g t start past (now.after pause) := by
  obtain ⟨hcome, hnow⟩ := h
  have hwait := hcome.wait pause
  rw [← hnow] at hwait
  exact ⟨hwait, congrArg (· + pause) hnow⟩

/-- **What has become of a session can be told from what arrives.**  The induction is on the turns
to come. -/
theorem Came.follow (h : c.Came g t start past now) (schedule : Schedule) :
    Final g t start (past ++ schedule.arrivals now) (c.follow schedule).tree
        (c.follow schedule).sent ∧
      (c.follow schedule).toEnd.session.stage = .closed := by
  induction schedule generalizing c past now with
  | nil =>
      rw [Schedule.arrivals, List.append_nil]
      exact ⟨h.1.final, h.1.toEnd⟩
  | cons turn rest ih =>
      obtain ⟨deed, pause⟩ := turn
      rw [follow_cons]
      cases deed with
      | nothing => exact ih (h.nothing.wait pause)
      | send bytes =>
          rw [Schedule.arrivals, ← List.append_assoc]
          exact ih ((h.send bytes).wait pause)
      | hangUp =>
          -- nothing arrives after the client has closed its side
          obtain ⟨htree, hsent⟩ := h.hangUp
          obtain ⟨hclosed, htree', hsent'⟩ :=
            follow_of_closed (closed_wait (closed_meet_hangUp c) pause) rest
          refine ⟨?_, ?_⟩
          · rw [Schedule.arrivals, List.append_nil, htree', hsent']
            show Final g t start _ (c.meet .hangUp).tree (c.meet .hangUp).sent
            rw [htree, hsent]
            exact h.1.final
          · rw [toEnd]
            dsimp only
            rwa [toEnd_of_closed hclosed]

/-- A session has come to something known, or its client has closed its side. -/
theorem Came.follow_cases (h : c.Came g t start past now) (schedule : Schedule) :
    (∃ past now, (c.follow schedule).Came g t start past now) ∨
      (c.follow schedule).session.stage = .closed := by
  induction schedule generalizing c past now with
  | nil => exact .inl ⟨past, now, h⟩
  | cons turn rest ih =>
      obtain ⟨deed, pause⟩ := turn
      rw [follow_cons]
      cases deed with
      | nothing => exact ih (h.nothing.wait pause)
      | send bytes => exact ih ((h.send bytes).wait pause)
      | hangUp => exact .inr (follow_of_closed (closed_wait (closed_meet_hangUp c) pause) rest).1

/-- **When its client closes its side, a session has nothing left to say or to do.** -/
theorem silent_follow (g : Gate) (t : Tree) (now : Nat) (schedule : Schedule) :
    (let c := (Course.start g t now).follow schedule
     (c.meet .hangUp).tree = c.tree ∧ (c.meet .hangUp).sent = c.sent) := by
  rcases (came_start g t now).follow_cases schedule with ⟨past, last, hcame⟩ | hclosed
  · exact hcame.hangUp
  · exact (meet_of_closed hclosed .hangUp).2

theorem final_toEnd (g : Gate) (t : Tree) (now : Nat) (schedule : Schedule) :
    Final g t ⟨now, 0⟩ (schedule.arrivals ⟨now, 0⟩)
        ((Course.start g t now).follow schedule).toEnd.tree
        ((Course.start g t now).follow schedule).toEnd.sent ∧
      ((Course.start g t now).follow schedule).toEnd.session.stage = .closed :=
  (came_start g t now).follow schedule

/-! ## What a client hears -/

/-- What is sent to a client by the end of its session, and for whom. -/
structure Answers (c : Course) (g : Gate) (t : Tree) (start : Stamp) (arrivals : List Arrival) :
    Prop where
  closed : c.session.stage = .closed
  /-- A client that is not admitted hears one word at most, and nothing is done for it. -/
  barred : (∀ e i rest, ¬ g.Admits t start arrivals e i rest) → c.tree = t ∧ Refused c.sent
  /-- Only one that is admitted is told so. -/
  accepted : ofCommand .accept <+: c.sent → ∃ e i rest, g.Admits t start arrivals e i rest
  /-- It is served the export that the first entry with its key opens. -/
  opened : ∀ e i rest, g.Admits t start arrivals e i rest →
    ∃ key entry, Utf8.decode (keyBytes (bytesOf (arrivals.take tokenWidth))) = some key ∧
      g.keys.First key entry ∧ g.Opens t entry e
  /-- It hears this first.  Then it hears what its rounds make, all of them on this export, and of a
  write that does not end no more than that the file is open. -/
  served : ∀ e i rest, g.Admits t start arrivals e i rest →
    ∃ rounds said, i.Whole g.config e rest rounds ∧
      c.sent = ofCommand .accept ++ (rounds.flatMap (·.sent) ++ said) ∧
      (said = [] ∨ said = ofCode 0) ∧
      ∀ round ∈ rounds, round.sent = [] ∨ round.sent = ofCommand .heartbeat ∨
        ∃ command, Export.Reply command round.sent

theorem not_accept_of_refused {sent : Bytes} (h : Refused sent) :
    ¬ ofCommand .accept <+: sent := by
  intro hbegins
  rcases h with rfl | ⟨failure, hfailure, rfl⟩
  · cases List.prefix_nil.mp hbegins
  · simp only [List.mem_cons, List.not_mem_nil, or_false] at hfailure
    rcases hfailure with rfl | rfl | rfl <;> exact absurd hbegins (by decide)

/-- **Nothing is done and next to nothing is said before a client is accepted**, whatever it sends
and whenever it does. -/
theorem answers_toEnd (g : Gate) (t : Tree) (now : Nat) (schedule : Schedule) :
    ((Course.start g t now).follow schedule).toEnd.Answers g t ⟨now, 0⟩
      (schedule.arrivals ⟨now, 0⟩) := by
  obtain ⟨hfinal, hclosed⟩ := final_toEnd g t now schedule
  have hopened := fun e i rest
    (h : g.Admits t ⟨now, 0⟩ (schedule.arrivals ⟨now, 0⟩) e i rest) => h.token.2.2
  generalize ((Course.start g t now).follow schedule).toEnd = c at hfinal hclosed
  generalize htree : c.tree = tree, hsent : c.sent = sent at hfinal
  cases hfinal with
  | denied hnone hrefused =>
      constructor
      case closed => exact hclosed
      case barred =>
          intro _
          rw [hsent]
          exact ⟨htree, hrefused⟩
      case accepted =>
          intro haccept
          rw [hsent] at haccept
          exact absurd haccept (not_accept_of_refused hrefused)
      case opened => exact hopened
      case served =>
          intro e i rest hadmits
          exact absurd hadmits (hnone e i rest)
  | served hadmits hwhole hsaid =>
      constructor
      case closed => exact hclosed
      case barred =>
          intro hnone
          exact absurd hadmits (hnone _ _ _)
      case accepted => exact fun _ => ⟨_, _, _, hadmits⟩
      case opened => exact hopened
      case served =>
          intro e i rest hadmits'
          obtain ⟨rfl, rfl, rfl⟩ := hadmits.unique hadmits'
          exact ⟨_, _, hwhole, hsent, hsaid, fun round => hwhole.answer⟩

end Course
end UnionFS
