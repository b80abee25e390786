import UnionFS.Proofs.Session.History
import UnionFS.Proofs.Session.Waits

/-!
# Sessions in their rounds

A session that serves an export is, at any moment, within a round: so many rounds are over, and a
part of the next has arrived (`Within`).  Whatever it hears, it completes the rounds that are there
(`told_serveAll`, `Within.arrive`), and whatever time passes leaves it within its round or ends
it (`Within.pass`).  Once it has ended, what still arrives would have made no further round, and it
is known whether that is because the next round did not begin in time (`Fate`).
-/

namespace UnionFS

open Dialogue Wire

/-! ## What makes no round -/

namespace Session

/-- A command is known by its two bytes. -/
theorem ofCommand_eq_iff {x y : UInt8} {c : Command} :
    [x, y] = ofCommand c ↔ command? x y = some c := by
  constructor
  · intro h
    exact (command?_of_append (h.trans (List.append_nil _).symm)).1
  · intro h
    have hword := Command.ofWord?_eq_some_iff.mp h
    have hlt : Bytes.toNat [x, y] < 256 ^ 2 := Bytes.toNat_lt [x, y]
    have hnat : c.word.toNat = Bytes.toNat [x, y] := by
      rw [← hword]
      exact UInt16.toNat_ofNat_of_lt' hlt
    rw [ofCommand, hnat]
    exact (Bytes.ofNat_toNat [x, y]).symm

end Session

namespace Export

variable {e : Export} {t : Tree} {c : Command} {part heard sent : Bytes} {writes : List Request}

/-- Where serving has not come to its end, no request has been there. -/
theorem not_attends_of_unfinished
    (h : ((e.serve c).feed part t).pending.outcome? ≠ some (.ok ()))
    (hp : heard <+: part) : ¬ e.Attends t c heard sent writes := by
  intro hattends
  obtain ⟨rest, rfl⟩ := hp
  rw [feed_serve_of_attends hattends rest] at h
  exact h rfl

/-- Nor where more of it is waited for. -/
theorem not_attends_of_waiting {pending : Dialogue Tree Unit} {said unread : Bytes} {t' : Tree}
    (hfeed : (e.serve c).feed part t = ⟨pending, said, unread, t'⟩)
    (hwaits : pending.outcome? = none) (hp : heard <+: part) :
    ¬ e.Attends t c heard sent writes := by
  refine not_attends_of_unfinished ?_ hp
  rw [hfeed, hwaits]
  exact (Option.some_ne_none _).symm

/-- What ends a request that has been waited for is new. -/
theorem ends_new {old new heard : List Arrival} {pending : Dialogue Tree Unit}
    {said unread : Bytes} {t' : Tree}
    (hfeed : (e.serve c).feed (bytesOf old) t = ⟨pending, said, unread, t'⟩)
    (hwaits : pending.outcome? = none) (hbegins : heard <+: old ++ new)
    (hattends : e.Attends t c (bytesOf heard) sent writes) :
    ∃ front z, heard = old ++ (front ++ [z]) ∧ front ++ [z] <+: new := by
  have hmissing : ¬ heard <+: old := by
    intro hold
    exact not_attends_of_waiting hfeed hwaits (bytesOf_isPrefix hold) hattends
  rcases List.prefix_or_prefix_of_prefix hbegins (List.prefix_append old new) with
    hshort | ⟨tail, rfl⟩
  · exact absurd hshort hmissing
  · rcases List.eq_nil_or_concat tail with rfl | ⟨front, z, rfl⟩
    · rw [List.append_nil] at hmissing
      exact absurd (List.prefix_refl _) hmissing
    · rw [List.concat_eq_append] at hbegins ⊢
      exact ⟨front, z, rfl, (List.prefix_append_right_inj old).mp hbegins⟩

/-- A dialogue that has given the stream up has done so for good. -/
theorem outcome_feed_append {σ α : Type} {d : Dialogue σ α} {s : σ} {error : WireError}
    (h : (d.feed part s).pending.outcome? = some (.error error)) (more : Bytes) :
    (d.feed (part ++ more) s).pending.outcome? = some (.error error) := by
  rw [feed_append]
  dsimp only
  generalize d.feed part s = p at h
  obtain ⟨pending, sent, unread, state⟩ := p
  cases pending with
  | fail => exact h
  | _ => cases h

end Export

namespace Interval

variable {config : ServerConfig} {e : Export} {i j : Interval} {x y : Arrival}
  {ahead part : List Arrival} {now : Stamp} {round : Round}

/-- The round that would come next. -/
theorem Takes.heard_eq (h : i.Takes config e round j) :
    ∃ x y body, round.heard = x :: y :: body ∧ x.stamp.InTime i.since (i.window config) ∧
      y.stamp.InTime x.stamp config.ioTimeout.toNat ∧
      (∀ z ∈ body, z.stamp.InTime y.stamp config.ioTimeout.toNat) ∧
      e.Serves i.tree (bytesOf (x :: y :: body)) round.sent round.writes := by
  cases h with
  | round hx hy hbody hserves => exact ⟨_, _, _, rfl, hx, hy, hbody, hserves⟩

theorem stuck_nil : i.Stuck config e [] := by
  intro round j htakes hbegins
  obtain ⟨x, y, body, hheard, -⟩ := htakes.heard_eq
  rw [hheard] at hbegins
  exact absurd (List.prefix_nil.mp hbegins) (List.cons_ne_nil _ _)

theorem stuck_singleton : i.Stuck config e [x] := by
  intro round j htakes hbegins
  obtain ⟨x, y, body, hheard, -⟩ := htakes.heard_eq
  rw [hheard] at hbegins
  exact absurd hbegins.length_le (by simp)

theorem stuck_stop (h : Session.command? x.byte y.byte = some .stop) :
    i.Stuck config e (x :: y :: ahead) := by
  intro round j htakes hbegins
  obtain ⟨x', y', body, hheard, -, -, -, hserves⟩ := htakes.heard_eq
  rw [hheard] at hbegins
  obtain ⟨rfl, htail⟩ := List.cons_prefix_cons.mp hbegins
  obtain ⟨rfl, -⟩ := List.cons_prefix_cons.mp htail
  rcases hserves.cons with ⟨-, -, -, hc⟩ | ⟨hc, -⟩ | ⟨c, hc, hattends⟩
  · exact absurd rfl (hc _ h).2.1
  · cases h.symm.trans hc
  · cases h.symm.trans hc
    cases hattends.isRequest

/-- Where a request has begun, only it makes a round. -/
theorem stuck_request {c : Command} (h : Session.command? x.byte y.byte = some c)
    (hc : c.isRequest = true)
    (hnone : ∀ body sent writes, body <+: ahead →
      (∀ z ∈ body, z.stamp.InTime y.stamp config.ioTimeout.toNat) →
      ¬ e.Attends i.tree c (bytesOf body) sent writes) :
    i.Stuck config e (x :: y :: ahead) := by
  intro round j htakes hbegins
  obtain ⟨x', y', body, hheard, -, -, hbody, hserves⟩ := htakes.heard_eq
  rw [hheard] at hbegins
  obtain ⟨rfl, htail⟩ := List.cons_prefix_cons.mp hbegins
  obtain ⟨rfl, hrest⟩ := List.cons_prefix_cons.mp htail
  rcases hserves.cons with ⟨-, -, -, hother⟩ | ⟨hbeat, -⟩ | ⟨c', hc', hattends⟩
  · exact absurd hc (by rw [(hother _ h).1]; decide)
  · cases h.symm.trans hbeat
    cases hc
  · cases h.symm.trans hc'
    exact hnone _ _ _ hrest hbody hattends

end Interval

/-! ## Within a round -/

namespace Session

/-- The session of this gate can still hear something, and be waited for. -/
structure Listening (s : Session) (g : Gate) : Prop where
  gate : s.gate = g
  hears : s.ended = false
  threshold : s.heartbeat.threshold = ({} : Heartbeat).threshold
  spare : s.heartbeat.missed < s.heartbeat.threshold

/-- The next round begins with these two bytes, and they are in time. -/
structure Begins (s : Session) (i : Interval) (x y : Arrival) : Prop where
  missed : s.heartbeat.missed = i.missedBy s.gate.config x.stamp
  first : x.stamp.InTime i.since (i.window s.gate.config)
  second : y.stamp.InTime x.stamp s.gate.config.ioTimeout.toNat

/-- They are the command of a request, and so much of it has arrived, in time. -/
structure Requests (s : Session) (i : Interval) (c : Command) (x y : Arrival)
    (body : List Arrival) (now : Stamp) : Prop extends s.Begins i x y where
  command : command? x.byte y.byte = some c
  request : c.isRequest = true
  timely : ∀ z ∈ body, z.stamp.InTime y.stamp s.gate.config.ioTimeout.toNat
  earlier : y.stamp.NoLater now
  wait : now.InTime y.stamp s.gate.config.ioTimeout.toNat

/-- The rounds before the interval `i` are over, `part` of the next one has arrived, and `said` has
been answered to it. -/
inductive Within (s : Session) (e : Export) (i : Interval) :
    (part : List Arrival) → (said : Bytes) → (now : Stamp) → Prop where
  | idle {now : Stamp} :
    s.Counting e i.since.time i.missed
      ((now.time - i.since.time) / s.gate.config.readTimeout.toNat) →
    s.unread = [] → i.since.NoLater now →
    now.InTime i.since (i.window s.gate.config) → Within s e i [] [] now
  | half {x : Arrival} {now : Stamp} :
    s.phase = .half e → s.unread = [x.byte] →
    s.deadline = x.stamp.time + s.gate.config.ioTimeout.toNat →
    s.heartbeat.missed = i.missedBy s.gate.config x.stamp →
    x.stamp.InTime i.since (i.window s.gate.config) →
    x.stamp.NoLater now → now.InTime x.stamp s.gate.config.ioTimeout.toNat →
    Within s e i [x] [] now
  | busy {x y : Arrival} {body : List Arrival} {c : Command} {pending : Dialogue Tree Unit}
    {said : Bytes} {now : Stamp} :
    s.phase = .busy e pending →
    s.deadline = y.stamp.time + s.gate.config.ioTimeout.toNat →
    s.Requests i c x y body now →
    (e.serve c).feed (bytesOf body) i.tree = ⟨pending, said, s.unread, i.tree⟩ →
    pending.outcome? = none → Within s e i (x :: y :: body) said now

variable {s : Session} {g : Gate} {e : Export} {i j k : Interval} {part : List Arrival}
  {said : Bytes} {now : Stamp}

/-- Within a round, the round is not over. -/
theorem Within.stuck (h : s.Within e i part said now) (config : ServerConfig) :
    i.Stuck config e part := by
  cases h with
  | idle => exact Interval.stuck_nil
  | half => exact Interval.stuck_singleton
  | busy _ _ hrequests hfeed hwaits =>
      refine Interval.stuck_request hrequests.command hrequests.request
        fun body sent writes hbegins _ => ?_
      exact Export.not_attends_of_waiting hfeed hwaits (bytesOf_isPrefix hbegins)

/-- All that is said before a request is there is that a file is open. -/
theorem Within.first (h : s.Within e i part said now) : said = [] ∨ said = ofCode 0 := by
  cases h with
  | idle => exact .inl rfl
  | half => exact .inl rfl
  | @busy _ _ body _ _ _ _ _ _ hrequests hfeed hwaits =>
      rcases e.feed_serve hrequests.request (bytesOf body) i.tree with
        ⟨_, _, _, _, -, -, hdone⟩ | ⟨sent, hstalled, hsent⟩
      · rw [hfeed] at hdone
        obtain rfl : _ = Dialogue.done () := congrArg Progress.pending hdone
        cases hwaits
      · rw [hfeed] at hstalled
        obtain rfl := hstalled.sent
        exact hsent.imp_right And.right

/-- The session has ended at this time because too many windows were missed. -/
def Expired (s : Session) (time : Nat) : Prop :=
  s.phase = .closed time ∧ s.heartbeat.expired = true

/-- Why a session has ended after the interval `i`: it has heard the next round begin, or nothing
before its windows were over. -/
inductive Fate (s : Session) (config : ServerConfig) (i : Interval) :
    (part : List Arrival) → (now : Stamp) → Prop where
  | broken {x : Arrival} {ahead : List Arrival} {now : Stamp} :
    s.heartbeat.expired = false → x.stamp.InTime i.since (i.window config) →
    Fate s config i (x :: ahead) now
  | expired {part : List Arrival} {now : Stamp} :
    s.Expired (i.since.time + i.window config) →
    (∀ z ∈ part, ¬ z.stamp.InTime i.since (i.window config)) →
    i.since.NoLater now → ¬ now.InTime i.since (i.window config) → Fate s config i part now

/-- The session has ended within a round. -/
structure Over (s : Session) (g : Gate) (i : Interval) (e : Export) (part : List Arrival)
    (now : Stamp) : Prop where
  closed : s.stage = .closed
  fate : s.Fate g.config i part now
  stuck : ∀ later : List Arrival, (∀ z ∈ later, now.NoLater z.stamp) →
    i.Stuck g.config e (part ++ later)

/-- What a session has come to since the interval `i`: some rounds are over, and it is within the
next, or has ended and whatever comes later makes no other. -/
structure Standing (R : Reaction) (g : Gate) (e : Export) (i : Interval) (input : List Arrival)
    (now : Stamp) (rounds : List Round) (j : Interval) (part : List Arrival) (said : Bytes) :
    Prop where
  history : i.History g.config e rounds j
  heard : input = rounds.flatMap (·.heard) ++ part
  tree : R.tree = j.tree
  sent : R.sent = rounds.flatMap (·.sent) ++ said
  first : said = [] ∨ said = ofCode 0
  state : R.session.Listening g ∧ R.session.Within e j part said now ∨
    R.session.Over g j e part now

/-- The session has served what there was. -/
def Told (R : Reaction) (g : Gate) (e : Export) (i : Interval) (input : List Arrival)
    (now : Stamp) : Prop :=
  ∃ rounds j part said, Standing R g e i input now rounds j part said

variable {R : Reaction} {input : List Arrival} {rounds : List Round} {round : Round}

theorem Within.told (h : s.Within e i part said now) (hs : s.Listening g) :
    Told ⟨s, i.tree, said⟩ g e i part now :=
  ⟨[], i, part, said, .nil i, rfl, rfl, rfl, h.first, .inl ⟨hs, h⟩⟩

theorem Over.told (h : s.Over g i e part now) (hfirst : said = [] ∨ said = ofCode 0) :
    Told ⟨s, i.tree, said⟩ g e i part now :=
  ⟨[], i, part, said, .nil i, rfl, rfl, rfl, hfirst, .inr h⟩

/-- A session that can be waited for has not missed too many windows. -/
theorem Listening.not_expired (h : s.Listening g) : s.heartbeat.expired = false := by
  rw [Heartbeat.expired, decide_eq_false_iff_not, Nat.not_le]
  exact h.spare

/-- The session gives up a round that has begun. -/
theorem told_broken (hs : s.Listening g) (time : Nat) {x : Arrival} {ahead : List Arrival}
    (hfirst : x.stamp.InTime i.since (i.window s.gate.config))
    (hsaid : said = [] ∨ said = ofCode 0)
    (hstuck : ∀ later : List Arrival, (∀ z ∈ later, now.NoLater z.stamp) →
      i.Stuck g.config e (x :: ahead ++ later)) :
    Told ⟨s.finish time, i.tree, said⟩ g e i (x :: ahead) now := by
  obtain rfl := hs.gate
  exact Over.told ⟨rfl, .broken hs.not_expired hfirst, hstuck⟩ hsaid

/-- What has been told from some round on. -/
theorem Told.append (hhistory : i.History g.config e rounds j)
    (h : Told R g e j input now) :
    Told (R.after (rounds.flatMap (·.sent))) g e i (rounds.flatMap (·.heard) ++ input) now := by
  obtain ⟨more, k, part, said, h⟩ := h
  refine ⟨rounds ++ more, k, part, said, hhistory.append h.history, ?_, h.tree, ?_, h.first,
    h.state⟩
  · rw [h.heard, List.flatMap_append, List.append_assoc]
  · show _ ++ R.sent = _
    rw [h.sent, List.flatMap_append, List.append_assoc]

theorem Told.cons (htakes : i.Takes g.config e round j) (h : Told R g e j input now) :
    Told (R.after round.sent) g e i (round.heard ++ input) now := by
  have happend := Told.append (.cons htakes (.nil j)) h
  rwa [List.flatMap_singleton, List.flatMap_singleton] at happend

/-! ## Serving what has arrived -/

/-- What is served next: nothing, or the start of the round after `i`.  Only its first byte may have
arrived before now. -/
inductive Ready (s : Session) (i : Interval) (now : Stamp) : List Arrival → Prop where
  | nil : i.since = now → s.heartbeat.missed = i.missed → Ready s i now []
  | cons {x : Arrival} {others : List Arrival} :
    x.stamp.InTime i.since (i.window s.gate.config) →
    s.heartbeat.missed = i.missedBy s.gate.config x.stamp →
    now.InTime x.stamp s.gate.config.ioTimeout.toNat → (∀ z ∈ others, z.stamp = now) →
    (others = [] → x.stamp = now) → Ready s i now (x :: others)

theorem Ready.of_now (hsince : i.since = now) (hmissed : s.heartbeat.missed = i.missed)
    (hinput : ∀ z ∈ input, z.stamp = now) : s.Ready i now input := by
  subst hsince
  cases input with
  | nil => exact .nil rfl hmissed
  | cons x others =>
      obtain ⟨hx, hothers⟩ := List.forall_mem_cons.mp hinput
      refine .cons (hx ▸ .refl _ _) ?_ (hx ▸ .refl _ _) hothers fun _ => hx
      rw [hx, hmissed, Interval.missedBy, Nat.sub_self, Nat.zero_div, Nat.add_zero]

theorem stamp_getLastD {y : Arrival} {body : List Arrival} (h : ∀ z ∈ y :: body, z.stamp = now) :
    (body.getLastD y).stamp = now :=
  h _ (List.getLastD_mem_cons ..)

/-- A new wait for a command. -/
theorem told_await_idle (h : s.Listening g) (e : Export) (hsince : i.since = now)
    (hmissed : s.heartbeat.missed = i.missed) :
    Told ⟨s.await now.time (.idle e) [] s.gate.config.readTimeout, i.tree, []⟩ g e i [] now := by
  subst hsince
  rw [await_listening h.hears]
  refine Within.told (.idle ⟨rfl, ?_, ?_, ?_⟩ rfl (.refl _) (.refl _ _))
    ⟨h.gate, h.hears, h.threshold, h.spare⟩
  · show s.heartbeat.threshold ≤ _
    rw [h.threshold]
    decide
  · rw [Nat.sub_self, Nat.zero_div]
    exact hmissed
  · rw [Nat.sub_self, Nat.zero_div, Nat.zero_add, Nat.one_mul]

/-- A new wait for the second byte of a command. -/
theorem told_await_half (h : s.Listening g) (e : Export) {x : Arrival} (hx : x.stamp = now)
    (hin : x.stamp.InTime i.since (i.window s.gate.config))
    (hmissed : s.heartbeat.missed = i.missedBy s.gate.config x.stamp) :
    Told ⟨s.await now.time (.half e) [x.byte] s.gate.config.ioTimeout, i.tree, []⟩ g e i [x]
      now := by
  subst hx
  rw [await_listening h.hears]
  exact Within.told (.half rfl rfl rfl hmissed hin (.refl _) (.refl _ _))
    ⟨h.gate, h.hears, h.threshold, h.spare⟩

/-- A round whose last byte has just arrived. -/
theorem Begins.takes {x y : Arrival} {body : List Arrival} {sent : Bytes} {writes : List Request}
    (h : s.Begins i x y)
    (hbody : ∀ z ∈ body, z.stamp.InTime y.stamp s.gate.config.ioTimeout.toNat)
    (hlast : (body.getLastD y).stamp = now)
    (hserves : e.Serves i.tree (bytesOf (x :: y :: body)) sent writes) :
    i.Takes s.gate.config e ⟨x :: y :: body, sent, writes⟩
      { since := now
        missed := if bytesOf [x, y] = ofCommand .heartbeat then 0 else s.heartbeat.missed
        tree := e.carryOut i.tree writes } := by
  subst hlast
  rw [h.missed]
  exact .round h.first h.second hbody hserves

theorem missed_of_ne_heartbeat {x y : Arrival} (hne : command? x.byte y.byte ≠ some .heartbeat)
    (n : Nat) : (if bytesOf [x, y] = ofCommand .heartbeat then 0 else n) = n :=
  if_neg fun h => hne (ofCommand_eq_iff.mp h)

/-- What a session does when a request has come so far that was begun before: where it has not
ended, the session waits until the deadline. -/
def pursue (s : Session) (e : Export) (now deadline : Nat) (p : Progress Tree Unit) : Reaction :=
  match p.pending.outcome? with
  | some (.ok ()) => (s.serveAll e now p.state p.unread).after p.sent
  | some (.error _) => ⟨s.finish now, p.state, p.sent⟩
  | none => ⟨{ s with phase := .busy e p.pending, unread := p.unread, deadline }, p.state, p.sent⟩

theorem proceed_eq_pursue (h : s.ended = false) (e : Export) (now : Nat)
    (p : Progress Tree Unit) :
    s.proceed e now p = s.pursue e now (now + s.gate.config.ioTimeout.toNat) p := by
  rw [proceed, takeUp, pursue]
  rcases p.pending.outcome? with _ | (error | a)
  · dsimp only
    rw [await_listening h]
  · rfl
  · rfl

/-- All rounds of so many bytes at most are served, on whatever tree. -/
def ServesAll (s : Session) (g : Gate) (e : Export) (now : Stamp) (n : Nat) : Prop :=
  ∀ (i : Interval) (input : List Arrival), input.length ≤ n → s.Ready i now input →
    Told (s.serveAll e now.time i.tree (bytesOf input)) g e i input now

section Request

variable {x y : Arrival} {c : Command} {ahead : List Arrival}

/-- A request that is there is a round, and what follows it is served. -/
theorem Requests.complete (h : s.Requests i c x y ahead now) (hs : s.Listening g)
    (hserve : s.ServesAll g e now ahead.length) {body more : List Arrival} {sent : Bytes}
    {writes : List Request} (hsplit : ahead = body ++ more)
    (hattends : e.Attends i.tree c (bytesOf body) sent writes)
    (hlast : (body.getLastD y).stamp = now) (hmore : ∀ z ∈ more, z.stamp = now) :
    Told ((s.serveAll e now.time (e.carryOut i.tree writes) (bytesOf more)).after sent) g e i
      (x :: y :: ahead) now := by
  subst hsplit
  obtain rfl := hs.gate
  have hword : [x.byte, y.byte] = ofCommand c := ofCommand_eq_iff.mpr h.command
  have hserves : e.Serves i.tree (bytesOf (x :: y :: body)) sent writes := by
    have hrequest := Export.Serves.request hattends
    rwa [← hword] at hrequest
  have hne : command? x.byte y.byte ≠ some .heartbeat := by
    intro hbeat
    have hrequest := h.request
    cases h.command.symm.trans hbeat
    cases hrequest
  obtain ⟨hbody, -⟩ := List.forall_mem_append.mp h.timely
  have htakes := h.takes hbody hlast hserves
  rw [missed_of_ne_heartbeat hne] at htakes
  have hshort : more.length ≤ (body ++ more).length := by
    rw [List.length_append]
    exact Nat.le_add_left _ _
  exact Told.cons htakes (hserve ⟨now, _, _⟩ more hshort (.of_now rfl rfl hmore))

/-- A request that has been given up is none, whatever comes later. -/
theorem Requests.broken (h : s.Requests i c x y ahead now) {error : WireError}
    (hbroken : ((e.serve c).feed (bytesOf ahead) i.tree).pending.outcome? = some (.error error))
    (config : ServerConfig) (later : List Arrival) :
    i.Stuck config e (x :: y :: (ahead ++ later)) := by
  refine Interval.stuck_request h.command h.request fun body sent writes hbegins _ => ?_
  have hgone := Export.outcome_feed_append hbroken (bytesOf later)
  rw [← bytesOf_append] at hgone
  refine Export.not_attends_of_unfinished ?_ (bytesOf_isPrefix hbegins)
  rw [hgone]
  intro hdone
  cases hdone

/-- A request that is not there is waited for. -/
theorem Requests.waits (h : s.Requests i c x y ahead now) (hs : s.Listening g)
    {pending : Dialogue Tree Unit} {said unread : Bytes}
    (hfeed : (e.serve c).feed (bytesOf ahead) i.tree = ⟨pending, said, unread, i.tree⟩)
    (hwaits : pending.outcome? = none) :
    Told ⟨{ s with
        phase := .busy e pending, unread
        deadline := y.stamp.time + s.gate.config.ioTimeout.toNat }, i.tree, said⟩
      g e i (x :: y :: ahead) now := by
  obtain ⟨⟨hmissed, hfirst, hsecond⟩, hcommand, hrequest, htimely, hearlier, hwait⟩ := h
  exact Within.told
    (.busy rfl rfl ⟨⟨hmissed, hfirst, hsecond⟩, hcommand, hrequest, htimely, hearlier, hwait⟩
      hfeed hwaits)
    ⟨hs.gate, hs.hears, hs.threshold, hs.spare⟩

/-- **A request that has begun is served if it is there**, and waited for in its round if it is not.
What has been heard last of it, and what follows it, has arrived now. -/
theorem Requests.pursue (h : s.Requests i c x y ahead now) (hs : s.Listening g)
    (hserve : s.ServesAll g e now ahead.length)
    (hnow : ∀ heard more sent writes, ahead = heard ++ more →
      e.Attends i.tree c (bytesOf heard) sent writes →
      (heard.getLastD y).stamp = now ∧ ∀ z ∈ more, z.stamp = now) :
    Told (s.pursue e now.time (y.stamp.time + s.gate.config.ioTimeout.toNat)
      ((e.serve c).feed (bytesOf ahead) i.tree)) g e i (x :: y :: ahead) now := by
  rcases e.feed_serve h.request (bytesOf ahead) i.tree with
    ⟨_, sent, writes, _, hsplit, hattends, hfeed⟩ | ⟨sent, hstalled, hsent⟩
  · obtain ⟨body, more, hahead, rfl, rfl⟩ := List.map_eq_append_iff.mp hsplit
    obtain ⟨hlast, hmore⟩ := hnow body more sent writes hahead hattends
    rw [hfeed]
    exact h.complete hs hserve hahead hattends hlast hmore
  · generalize hprogress : (e.serve c).feed (bytesOf ahead) i.tree = p at hstalled
    obtain ⟨pending, said, unread, state⟩ := p
    obtain ⟨hunfinished, rfl, rfl⟩ := hstalled
    have hfirst : said = [] ∨ said = ofCode 0 := hsent.imp_right And.right
    rw [Session.pursue]
    dsimp only
    split
    · next hdone =>
      obtain ⟨error, -, herror⟩ := hunfinished _ hdone
      cases herror
    · next error hfailed =>
      have hbroken : ((e.serve c).feed (bytesOf ahead) i.tree).pending.outcome? =
          some (.error error) := by
        rw [hprogress]
        exact hfailed
      exact told_broken hs _ h.first hfirst fun later _ => h.broken hbroken g.config later
    · next hwaits =>
      exact h.waits hs hprogress hwaits

end Request

/-- A round of two bytes has been served, and what follows them is. -/
theorem Begins.told {s' : Session} {x y : Arrival} {sent : Bytes} {rest : List Arrival}
    (h : s.Begins i x y) (hs : s.Listening g) (hy : y.stamp = now)
    (hserves : e.Serves i.tree (bytesOf [x, y]) sent [])
    (hmissed : s'.heartbeat.missed =
      if bytesOf [x, y] = ofCommand .heartbeat then 0 else s.heartbeat.missed)
    (hrest : ∀ z ∈ rest, z.stamp = now) (hserve : s'.ServesAll g e now rest.length) :
    Told ((s'.serveAll e now.time i.tree (bytesOf rest)).after sent) g e i (x :: y :: rest)
      now := by
  obtain rfl := hs.gate
  have htakes : i.Takes s.gate.config e ⟨[x, y], sent, []⟩ _ :=
    h.takes (List.forall_mem_nil _) hy hserves
  exact Told.cons htakes
    (hserve ⟨now, _, i.tree⟩ rest (Nat.le_refl _) (.of_now rfl hmissed hrest))

/-- **All rounds that are there are served.**  The induction is on the length of what is there,
which every round shortens. -/
theorem told_serveAll (e : Export) (now : Stamp) (n : Nat) (hs : s.Listening g) :
    s.ServesAll g e now n := by
  induction n using Nat.strongRecOn generalizing s with
  | ind n ih =>
  intro i input hlen hready
  cases hready with
  | nil hsince hmissed =>
      rw [bytesOf, List.map_nil, serveAll]
      exact told_await_idle hs e hsince hmissed
  | @cons x others hfirst hmissed hsecond hothers hlast =>
  cases others with
  | nil =>
      rw [bytesOf_cons, bytesOf, List.map_nil, serveAll]
      exact told_await_half hs e (hlast rfl) hfirst hmissed
  | cons y rest =>
  obtain ⟨hy, hrest⟩ := List.forall_mem_cons.mp hothers
  rw [← hy] at hsecond
  have hbegins : s.Begins i x y := ⟨hmissed, hfirst, hsecond⟩
  have hless : rest.length < n := by
    rw [List.length_cons, List.length_cons] at hlen
    omega
  -- a command that is passed over is a round of its own
  have hpass (hne : command? x.byte y.byte ≠ some .heartbeat)
      (hserves : e.Serves i.tree (bytesOf [x, y]) [] []) :
      Told (s.serveAll e now.time i.tree (bytesOf rest)) g e i (x :: y :: rest) now :=
    hbegins.told hs hy hserves (missed_of_ne_heartbeat hne _).symm hrest (ih _ hless hs)
  rw [bytesOf_cons, bytesOf_cons]
  cases hcommand : command? x.byte y.byte with
  | none =>
      have hne : command? x.byte y.byte ≠ some .heartbeat := by
        rw [hcommand]
        exact (Option.some_ne_none _).symm
      rw [serveAll_unknown hcommand]
      refine hpass hne (.passedOver fun c hc => ?_)
      cases hcommand.symm.trans hc
  | some c =>
  by_cases hstop : c = .stop
  · subst hstop
    rw [serveAll_stop hcommand]
    exact told_broken hs _ hfirst (.inl rfl) fun later _ => Interval.stuck_stop hcommand
  by_cases hbeat : c = .heartbeat
  · subst hbeat
    have hword : bytesOf [x, y] = ofCommand .heartbeat := ofCommand_eq_iff.mpr hcommand
    have hserves : e.Serves i.tree (bytesOf [x, y]) (ofCommand .heartbeat) [] := by
      rw [hword]
      exact .heartbeat
    have hlistening : Listening { s with heartbeat := s.heartbeat.beat } g :=
      ⟨hs.gate, hs.hears, hs.threshold, Nat.lt_of_le_of_lt (Nat.zero_le _) hs.spare⟩
    rw [serveAll_heartbeat hcommand]
    exact hbegins.told hs hy hserves (if_pos hword).symm hrest (ih _ hless hlistening)
  rw [serveAll_command hcommand hstop hbeat]
  by_cases hrequest : c.isRequest = true
  · have htimely : ∀ z ∈ rest, z.stamp.InTime y.stamp s.gate.config.ioTimeout.toNat := by
      intro z hz
      rw [hrest z hz, hy]
      exact .refl _ _
    have hrequests : s.Requests i c x y rest now :=
      ⟨hbegins, hcommand, hrequest, htimely, hy ▸ .refl _, hy ▸ .refl _ _⟩
    have htold := hrequests.pursue hs (ih _ hless hs) fun heard more _ _ hsplit _ => by
      rw [hsplit] at hrest
      obtain ⟨hheard, hmore⟩ := List.forall_mem_append.mp hrest
      exact ⟨stamp_getLastD (List.forall_mem_cons.mpr ⟨hy, hheard⟩), hmore⟩
    rw [hy] at htold
    rw [proceed_eq_pursue hs.hears]
    exact htold
  · -- a command that only a server sends
    have hne : command? x.byte y.byte ≠ some .heartbeat := by
      rw [hcommand]
      exact fun heq => hbeat (Option.some.inj heq)
    have hdone : (e.serve c).feed (bytesOf rest) i.tree =
        ⟨.done (), [], bytesOf rest, i.tree⟩ := by
      cases c <;> first | rfl | exact absurd rfl hrequest
    rw [hdone, proceed, takeUp]
    dsimp only [outcome?]
    refine hpass hne (.passedOver fun c' hc' => ?_)
    cases hcommand.symm.trans hc'
    exact ⟨Bool.eq_false_iff.mpr hrequest, hstop, hbeat⟩

/-! ## What a session within a round does -/

theorem pursue_after (s : Session) (e : Export) (now deadline : Nat) (p : Progress Tree Unit)
    (b : Bytes) :
    (s.pursue e now deadline p).after b =
      s.pursue e now deadline { p with sent := b ++ p.sent } := by
  rw [pursue, pursue]
  rcases p.pending.outcome? with _ | (error | a)
  · rfl
  · rfl
  · exact Reaction.after_after _ _ _

theorem resume_busy_eq_pursue (h : s.ended = false) {pending : Dialogue Tree Unit}
    (hphase : s.phase = .busy e pending) (now : Nat) (t : Tree) (input : Bytes) :
    s.resume now t input = s.pursue e now s.deadline (pending.feed input t) := by
  rw [resume, hphase, pursue]
  dsimp only
  rcases (pending.feed input t).pending.outcome? with _ | (error | a)
  · dsimp only
    rw [if_neg (by rw [h]; decide)]
  · rfl
  · rfl

/-- **A session within a round serves what arrives.** -/
theorem Within.arrive (h : s.Within e i part said now) (hs : s.Listening g) (bytes : Bytes) :
    Told ((s.arrive now.time i.tree bytes).after said) g e i (part ++ arriving bytes now) now := by
  cases bytes with
  | nil =>
      show Told ((⟨s, i.tree, []⟩ : Reaction).after said) g e i (part ++ []) now
      rw [Reaction.after, List.append_nil, List.append_nil]
      exact h.told hs
  | cons b bytes =>
      have hnow : ∀ z ∈ arriving (b :: bytes) now, z.stamp = now := fun z =>
        stamp_of_mem_arriving
      rw [Session.arrive, if_neg (by simp)]
      cases h with
      | idle hcounting hunread hsince hin =>
          rw [resume, hcounting.phase, hunread]
          have hready : s.Ready i now (arriving (b :: bytes) now) :=
            .cons hin hcounting.missed (.refl now _)
              (List.forall_mem_cons.mp hnow).2 fun _ => rfl
          have htold := told_serveAll e now _ hs i _ (Nat.le_refl _) hready
          rwa [bytesOf_arriving] at htold
      | @half x _ hphase hunread hdeadline hmissed hin hearlier hwait =>
          rw [resume, hphase, hunread]
          have hready : s.Ready i now (x :: arriving (b :: bytes) now) :=
            .cons hin hmissed hwait hnow fun h => absurd h (List.cons_ne_nil _ _)
          have htold := told_serveAll e now _ hs i _ (Nat.le_refl _) hready
          rwa [bytesOf_cons, bytesOf_arriving] at htold
      | @busy x y body c pending _ _ hphase hdeadline hrequests hfeed hwaits =>
          have htimely : ∀ z ∈ body ++ arriving (b :: bytes) now,
              z.stamp.InTime y.stamp s.gate.config.ioTimeout.toNat := by
            refine List.forall_mem_append.mpr ⟨hrequests.timely, fun z hz => ?_⟩
            rw [hnow z hz]
            exact hrequests.wait
          have hdue : ∀ heard more sent writes, body ++ arriving (b :: bytes) now = heard ++ more →
              e.Attends i.tree c (bytesOf heard) sent writes →
              (heard.getLastD y).stamp = now ∧ ∀ z ∈ more, z.stamp = now := by
            intro heard more sent writes hsplit hattends
            obtain ⟨front, z, rfl, -⟩ := Export.ends_new hfeed hwaits ⟨more, hsplit.symm⟩ hattends
            rw [List.append_assoc] at hsplit
            rw [List.append_cancel_left hsplit] at hnow
            obtain ⟨hfront, hmore⟩ := List.forall_mem_append.mp hnow
            rw [← List.append_assoc, List.getLastD_concat]
            exact ⟨hfront z (by simp), hmore⟩
          have htold := Requests.pursue { hrequests with timely := htimely } hs
            (told_serveAll e now _ hs) hdue
          -- serving all of the request is going on where its beginning led
          have happend := feed_append (e.serve c) (bytesOf body) (b :: bytes) i.tree
          rw [hfeed] at happend
          rw [bytesOf_append, bytesOf_arriving, happend] at htold
          rw [resume_busy_eq_pursue hs.hears hphase, pursue_after, hdeadline]
          exact htold

/-- Where a session within a round is given up, and that nothing which comes too late makes a
round. -/
theorem Within.limit (h : s.Within e i part said now) (hs : s.Listening g) :
    ∃ (since : Stamp) (timeout : Nat), s.limit? = some (since.time + timeout) ∧
      since.NoLater now ∧ ∀ later : List Arrival, (∀ z ∈ later, ¬ z.stamp.InTime since timeout) →
        i.Stuck g.config e (part ++ later) := by
  obtain rfl := hs.gate
  cases h with
  | idle hcounting _ hsince =>
      have hlimit := limit_counting hcounting (hcounting.missed ▸ hs.spare)
      rw [hs.threshold] at hlimit
      -- the next round would begin too late
      refine ⟨i.since, i.window s.gate.config, hlimit, hsince, ?_⟩
      intro later hlate round j htakes hbegins
      obtain ⟨x, y, body, hheard, hx, -⟩ := htakes.heard_eq
      rw [hheard] at hbegins
      exact hlate x (hbegins.subset (by simp)) hx
  | @half x _ hphase _ hdeadline _ _ hearlier =>
      -- its second byte would come too late
      refine ⟨x.stamp, s.gate.config.ioTimeout.toNat, by rw [limit?, hphase, hdeadline], hearlier,
        ?_⟩
      intro later hlate round j htakes hbegins
      obtain ⟨x', y, body, hheard, -, hy, -⟩ := htakes.heard_eq
      rw [hheard] at hbegins
      obtain ⟨rfl, htail⟩ := List.cons_prefix_cons.mp hbegins
      exact hlate y (htail.subset (by simp)) hy
  | @busy x y body c pending _ _ hphase hdeadline hrequests hfeed hwaits =>
      refine ⟨y.stamp, s.gate.config.ioTimeout.toNat, by rw [limit?, hphase, hdeadline],
        hrequests.earlier, ?_⟩
      intro later hlate
      refine Interval.stuck_request hrequests.command hrequests.request
        fun body' sent writes hbegins hin => ?_
      -- the last byte of the request, if no other, would come too late
      intro hattends
      obtain ⟨front, z, rfl, hlater⟩ := Export.ends_new hfeed hwaits hbegins hattends
      exact hlate z (hlater.subset (by simp)) (hin z (by simp))

/-- A session between two rounds counts on. -/
theorem told_idle (hs : s.Listening g)
    (hcounting : s.Counting e i.since.time i.missed
      ((now.time - i.since.time) / s.gate.config.readTimeout.toNat))
    (hunread : s.unread = []) (hearlier : i.since.NoLater now) {pause : Nat}
    (hearly : now.time + pause < i.since.time + i.window s.gate.config) :
    Told ⟨s.pass (now.time + pause), i.tree, []⟩ g e i [] (now.after pause) := by
  have hwindow : i.window s.gate.config =
      (s.heartbeat.threshold - i.missed) * s.gate.config.readTimeout.toNat := by
    rw [hs.threshold]
    rfl
  have hin := hearly
  rw [hwindow] at hin
  have hmore := Nat.div_le_div_right (c := s.gate.config.readTimeout.toNat)
    (Nat.sub_le_sub_right (Nat.le_add_right now.time pause) i.since.time)
  have hcount : (now.time + pause - i.since.time) / s.gate.config.readTimeout.toNat <
      s.heartbeat.threshold - i.missed := by
    have htime := hearlier.time
    refine Nat.div_lt_of_lt_mul ?_
    rw [Nat.mul_comm]
    omega
  rw [pass_idle hcounting hin hmore]
  exact Within.told
    (.idle ⟨hcounting.phase, hcounting.ceiling, rfl, rfl⟩ hunread (hearlier.after pause)
      (.inr hearly))
    ⟨hs.gate, hs.hears, hs.threshold, Nat.add_lt_of_lt_sub' hcount⟩

/-- A session whose limit has passed between two requests has missed too many windows. -/
theorem fate_idle (hs : s.Listening g)
    (hcounting : s.Counting e i.since.time i.missed
      ((now.time - i.since.time) / s.gate.config.readTimeout.toNat))
    (hearlier : i.since.NoLater now) {pause : Nat}
    (hlate : i.since.time + i.window g.config ≤ now.time + pause) :
    (s.pass (now.time + pause)).Fate g.config i [] (now.after pause) := by
  obtain rfl := hs.gate
  have hceiling := hcounting.ceiling
  have hlimit := limit_counting hcounting (hcounting.missed ▸ hs.spare)
  rw [hs.threshold] at hlimit
  have hover : ¬ s.Outlasts (now.time + pause) := by
    rw [outlasts_iff hlimit, Nat.not_lt]
    exact hlate
  have hclosed := closedAt_pass hover hceiling
  rw [hlimit] at hclosed
  have hexpired := expired_pass hcounting.phase hlimit hlate hceiling
  exact .expired ⟨phase_of_closedAt hclosed, hexpired⟩ (List.forall_mem_nil _)
    (hearlier.after pause) (Stamp.not_inTime_of_later hearlier hlate (.refl _))

/-- Within a round, the end of the wait ends the session. -/
theorem fate_begun (hs : s.Listening g) {x : Arrival} {ahead : List Arrival}
    (hlimit : s.limit? = some s.deadline) (hidle : ∀ e, s.phase ≠ .idle e)
    (hfirst : x.stamp.InTime i.since (i.window g.config)) {time : Nat}
    (hdue : s.deadline ≤ time) : (s.pass time).Fate g.config i (x :: ahead) now := by
  rw [pass_of_due hlimit hidle hdue]
  exact .broken hs.not_expired hfirst

/-- When its limit has passed, it is known why the session has ended. -/
theorem Within.fate (h : s.Within e i part said now) (hs : s.Listening g) {pause limit : Nat}
    (hlimit : s.limit? = some limit) (hlate : limit ≤ now.time + pause) :
    (s.pass (now.time + pause)).Fate g.config i part (now.after pause) := by
  obtain rfl := hs.gate
  cases h with
  | idle hcounting _ hearlier =>
      rw [limit_counting hcounting (hcounting.missed ▸ hs.spare), hs.threshold] at hlimit
      rw [← Option.some.inj hlimit] at hlate
      exact fate_idle hs hcounting hearlier hlate
  | half hphase _ _ _ hfirst =>
      have hdeadline : s.limit? = some s.deadline := by rw [limit?, hphase]
      rw [← Option.some.inj (hdeadline.symm.trans hlimit)] at hlate
      refine fate_begun hs hdeadline (fun e hidle => ?_) hfirst hlate
      cases hphase.symm.trans hidle
  | busy hphase _ hrequests =>
      have hdeadline : s.limit? = some s.deadline := by rw [limit?, hphase]
      rw [← Option.some.inj (hdeadline.symm.trans hlimit)] at hlate
      refine fate_begun hs hdeadline (fun e hidle => ?_) hrequests.first hlate
      cases hphase.symm.trans hidle

/-- **Time leaves a session within its round, or ends it.** -/
theorem Within.pass (h : s.Within e i part said now) (hs : s.Listening g) (pause : Nat) :
    Told ⟨s.pass (now.time + pause), i.tree, said⟩ g e i part (now.after pause) := by
  obtain ⟨since, timeout, hlimit, hsince, hstuck⟩ := h.limit hs
  have hceiling : s.heartbeat.threshold ≤ Heartbeat.ceiling := by
    rw [hs.threshold]
    decide
  by_cases hlate : since.time + timeout ≤ now.time + pause
  · refine Over.told ⟨closed_pass hlimit hlate hceiling, h.fate hs hlimit hlate,
      fun later hlater => ?_⟩ h.first
    exact hstuck later fun z hz => Stamp.not_inTime_of_later hsince hlate (hlater z hz)
  rw [Nat.not_le] at hlate
  cases h with
  | idle hcounting hunread hearlier hin =>
      rw [limit_counting hcounting (hcounting.missed ▸ hs.spare), hs.threshold] at hlimit
      rw [← Option.some.inj hlimit] at hlate
      exact told_idle hs hcounting hunread hearlier hlate
  | half hphase hunread hdeadline hmissed hin hearlier hwait =>
      rw [limit?, hphase] at hlimit
      rw [← Option.some.inj hlimit] at hlate
      rw [pass_of_lt hlate]
      exact Within.told (.half hphase hunread hdeadline hmissed hin (hearlier.after pause)
        (.inr (hdeadline ▸ hlate))) hs
  | busy hphase hdeadline hrequests hfeed hwaits =>
      rw [limit?, hphase] at hlimit
      rw [← Option.some.inj hlimit] at hlate
      rw [pass_of_lt hlate]
      have hlater : s.Requests i _ _ _ _ (now.after pause) :=
        { hrequests with
          earlier := hrequests.earlier.after pause
          wait := .inr (hdeadline ▸ hlate) }
      exact Within.told (.busy hphase hdeadline hlater hfeed hwaits) hs

/-- **When the client closes its side, the session ends within its round.** -/
theorem Within.hangUp (h : s.Within e i part said now) (time : Nat) :
    s.hangUp time i.tree = ⟨({ s with ended := true } : Session).finish time, i.tree, []⟩ := by
  rw [Session.hangUp]
  cases h with
  | idle hcounting hunread =>
      rw [resume, hcounting.phase, hunread]
      dsimp only
      rw [serveAll]
      rfl
  | half hphase hunread =>
      rw [resume, hphase, hunread]
      dsimp only
      rw [serveAll]
      rfl
  | @busy x y body c pending said _ hphase _ _ hfeed hwaits =>
      have hagain := feed_feed (e.serve c) (bytesOf body) i.tree
      rw [hfeed] at hagain
      dsimp only at hagain
      rw [resume, hphase]
      dsimp only
      rw [hagain, hwaits]
      rfl

end Session
end UnionFS
