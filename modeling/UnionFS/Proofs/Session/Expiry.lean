import UnionFS.Proofs.Session.Courses

/-!
# Missed heartbeats

A session gives its client up when, since the client was accepted or last sent a heartbeat, five
full windows have gone by without a byte between two requests.  Whether and when that is can be told
from the arrivals alone (`Lapses`): a request begins a new window, but the windows that were missed
before it count on.

* `Told.expired_iff`: a session within its rounds has expired exactly then;
* `expiry_follow`: so has a session that follows a schedule, whatever the schedule is.
-/

namespace UnionFS

open Wire

/-! ## Sorted arrivals -/

/-- Nothing arrives before `start`, nor before what has arrived already. -/
def Sorted (start : Stamp) : List Arrival → Prop
  | [] => True
  | x :: rest => start.NoLater x.stamp ∧ Sorted x.stamp rest

namespace Sorted

variable {start now : Stamp} {a b : List Arrival} {x y : Arrival}

theorem earlier (h : Sorted now a) (hstart : start.NoLater now) : Sorted start a := by
  cases a with
  | nil => trivial
  | cons x rest => exact ⟨hstart.trans h.1, h.2⟩

theorem arriving_append (bytes : Bytes) (h : Sorted now a) :
    Sorted now (arriving bytes now ++ a) := by
  induction bytes with
  | nil => exact h
  | cons b bytes ih => exact ⟨.refl now, ih⟩

/-- A round is heard in this order, and so is what comes after it. -/
theorem round {body : List Arrival} (h : Sorted start (x :: y :: body ++ b)) :
    start.NoLater x.stamp ∧ x.stamp.NoLater (body.getLastD y).stamp ∧
      Sorted (body.getLastD y).stamp b := by
  refine ⟨h.1, ?_⟩
  induction body generalizing start x y with
  | nil => exact ⟨h.2.1, h.2.2⟩
  | cons z body ih =>
      obtain ⟨-, hxy, htail⟩ := h
      obtain ⟨hlast, hrest⟩ := ih ⟨hxy, htail⟩
      rw [List.getLastD_cons]
      exact ⟨hxy.trans hlast, hrest⟩

theorem tail (h : Sorted start (a ++ x :: b)) : Sorted x.stamp b := by
  induction a generalizing start with
  | nil => exact h.2
  | cons y a ih => exact ih h.2

end Sorted

theorem Schedule.sorted_arrivals (schedule : Schedule) (now : Stamp) :
    Sorted now (schedule.arrivals now) := by
  induction schedule generalizing now with
  | nil => trivial
  | cons turn rest ih =>
      obtain ⟨deed, pause⟩ := turn
      have hrest := (ih (now.after pause)).earlier ((Stamp.NoLater.refl now).after pause)
      cases deed with
      | send bytes => exact hrest.arriving_append bytes
      | hangUp => trivial
      | nothing => exact hrest

/-- Until when the client's side is open: it closes it, or the schedule is over. -/
def Schedule.openUntil : Schedule → Stamp → Stamp
  | [], now => now
  | ⟨.hangUp, _⟩ :: _, now => now
  | ⟨.send _, pause⟩ :: rest, now => Schedule.openUntil rest (now.after pause)
  | ⟨.nothing, pause⟩ :: rest, now => Schedule.openUntil rest (now.after pause)

/-! ## Windows -/

namespace Round

/-- When the first byte of a round comes.  One without bytes would be over at once. -/
def begins (since : Stamp) (round : Round) : Stamp :=
  (round.heard.head?.map (·.stamp)).getD since

/-- When its last byte comes. -/
def ends (since : Stamp) (round : Round) : Stamp :=
  (round.heard.getLast?.map (·.stamp)).getD since

def Beats (round : Round) : Prop :=
  bytesOf round.heard = ofCommand .heartbeat

end Round

/-- How many full windows go by without a byte in the waits for these rounds.  Each wait begins when
the round before it is over. -/
def idleWindows (config : ServerConfig) : (since : Stamp) → List Round → Nat
  | _, [] => 0
  | since, round :: rounds =>
    ((round.begins since).time - since.time) / config.readTimeout.toNat +
      idleWindows config (round.ends since) rounds

/-- The last heartbeat among these rounds, with the rounds after it.  Without any, it is the
acceptance that counts. -/
inductive LastReset (accepted : Stamp) :
    (rounds : List Round) → (reset : Stamp) → (others : List Round) → Prop where
  | accepted {rounds : List Round} :
    (∀ round ∈ rounds, ¬ round.Beats) → LastReset accepted rounds accepted rounds
  | heartbeat {before others : List Round} {x y : Arrival} {sent : Bytes} {writes : List Request} :
    bytesOf [x, y] = ofCommand .heartbeat → (∀ round ∈ others, ¬ round.Beats) →
    LastReset accepted (before ++ ⟨[x, y], sent, writes⟩ :: others) y.stamp others

/-- These arrivals are rounds of a session that is accepted with the interval `i`, and after them
nothing comes before five windows have gone by since the reset.  The fifth of them ends at
`time`. -/
inductive Lapses (config : ServerConfig) (e : Export) (i : Interval) (openUntil : Stamp) :
    (arrivals : List Arrival) → (reset : Stamp) → (time : Nat) → Prop where
  | lapses {rounds others : List Round} {ahead : List Arrival} {j : Interval} {reset : Stamp}
    {left : Nat} :
    i.History config e rounds j → LastReset i.since rounds reset others →
    left = 5 - idleWindows config reset others →
    (∀ x ∈ ahead, ¬ x.stamp.InTime j.since (left * config.readTimeout.toNat)) →
    ¬ openUntil.InTime j.since (left * config.readTimeout.toNat) →
    Lapses config e i openUntil (rounds.flatMap (·.heard) ++ ahead) reset
      (j.since.time + left * config.readTimeout.toNat)

/-- There is always a last reset. -/
theorem exists_lastReset (accepted : Stamp) (rounds : List Round) :
    ∃ reset others, LastReset accepted rounds reset others := by
  induction rounds with
  | nil => exact ⟨_, _, .accepted (List.forall_mem_nil _)⟩
  | cons round rounds ih =>
      obtain ⟨reset, others, hlast⟩ := ih
      cases hlast with
      | @heartbeat before _ x y sent writes hword hnone =>
          refine ⟨y.stamp, others, ?_⟩
          rw [← List.cons_append]
          exact .heartbeat hword hnone
      | accepted hnone =>
          by_cases hbeats : round.Beats
          · obtain ⟨heard, sent, writes⟩ := round
            obtain ⟨x, y, rfl⟩ : ∃ x y, heard = [x, y] := by
              have hlength := congrArg List.length hbeats
              rw [length_bytesOf] at hlength
              exact List.length_eq_two.mp hlength
            have hlast : LastReset accepted ([] ++ ⟨[x, y], sent, writes⟩ :: rounds) y.stamp
                rounds := .heartbeat hbeats hnone
            exact ⟨_, _, hlast⟩
          · exact ⟨_, _, .accepted (List.forall_mem_cons.mpr ⟨hbeats, hnone⟩)⟩

namespace Export

/-- Nothing belongs to a heartbeat but its two bytes. -/
theorem Serves.heartbeat_two {e : Export} {t : Tree} {x y : Arrival} {body : List Arrival}
    {sent : Bytes} {writes : List Request}
    (h : e.Serves t (bytesOf (x :: y :: body)) sent writes)
    (hword : bytesOf [x, y] = ofCommand .heartbeat) : body = [] := by
  have hcommand : Session.command? x.byte y.byte = some .heartbeat :=
    Session.ofCommand_eq_iff.mp hword
  have hnil : bytesOf body = [] := by
    rcases h.cons with ⟨hnil, -⟩ | ⟨-, hnil, -⟩ | ⟨c, hc, hattends⟩
    · exact hnil
    · exact hnil
    · cases hcommand.symm.trans hc
      cases hattends.isRequest
  exact List.map_eq_nil_iff.mp hnil

end Export

namespace Interval

variable {config : ServerConfig} {e : Export} {i j k : Interval} {rounds others : List Round}
  {round : Round} {reset openUntil : Stamp} {arrivals ahead : List Arrival} {time : Nat}

/-- The next wait begins when the round is over. -/
theorem Takes.since (h : i.Takes config e round j) : j.since = round.ends i.since := by
  cases h with
  | round => simp [Round.ends, List.getLast?_cons]

/-- A round that is no heartbeat leaves the windows that were missed before it. -/
theorem Takes.missed (h : i.Takes config e round j) (hnone : ¬ round.Beats) :
    j.missed = i.missed +
      ((round.begins i.since).time - i.since.time) / config.readTimeout.toNat := by
  cases h with
  | @round x y body _ _ _ _ _ hserves =>
      have hother : bytesOf [x, y] ≠ ofCommand .heartbeat := by
        intro hword
        obtain rfl := hserves.heartbeat_two hword
        exact hnone hword
      exact if_neg hother

/-- In the order of their arrival, a wait ends before its round does. -/
theorem Takes.sorted (h : i.Takes config e round j)
    (hsorted : Sorted i.since (round.heard ++ ahead)) :
    i.since.time ≤ (round.begins i.since).time ∧
      (round.begins i.since).time ≤ j.since.time ∧ Sorted j.since ahead := by
  cases h with
  | @round x y body _ _ _ _ _ hserves =>
      obtain ⟨hfirst, hlast, hrest⟩ := hsorted.round
      exact ⟨hfirst.time, hlast.time, hrest⟩

/-- Rounds without a heartbeat add up the windows without a byte. -/
theorem History.missed (h : i.History config e rounds j) (hnone : ∀ round ∈ rounds, ¬ round.Beats) :
    j.missed = i.missed + idleWindows config i.since rounds := by
  induction h with
  | nil => rfl
  | cons htakes _ ih =>
      obtain ⟨hround, hrounds⟩ := List.forall_mem_cons.mp hnone
      rw [ih hrounds, htakes.missed hround, htakes.since, idleWindows, Nat.add_assoc]

/-- The windows without a byte take their time. -/
theorem History.windows_le (h : i.History config e rounds j)
    (hsorted : Sorted i.since (rounds.flatMap (·.heard) ++ ahead)) :
    i.since.time + idleWindows config i.since rounds * config.readTimeout.toNat ≤ j.since.time := by
  induction h with
  | nil => simp [idleWindows]
  | @cons i j k round rounds htakes _ ih =>
      rw [List.flatMap_cons, List.append_assoc] at hsorted
      obtain ⟨hfirst, hlast, hrest⟩ := htakes.sorted hsorted
      have hwait := Nat.div_mul_le_self ((round.begins i.since).time - i.since.time)
        config.readTimeout.toNat
      have hothers := ih hrest
      rw [htakes.since] at hothers hlast
      rw [idleWindows, Nat.add_mul]
      omega

theorem History.sorted (h : i.History config e rounds j)
    (hsorted : Sorted i.since (rounds.flatMap (·.heard) ++ ahead)) : Sorted j.since ahead := by
  induction h with
  | nil => exact hsorted
  | cons htakes _ ih =>
      rw [List.flatMap_cons, List.append_assoc] at hsorted
      exact ih (htakes.sorted hsorted).2.2

/-- A history in two parts. -/
theorem History.split {a b : List Round} (h : i.History config e (a ++ b) k) :
    ∃ j, i.History config e a j ∧ j.History config e b k := by
  induction a generalizing i with
  | nil => exact ⟨i, .nil i, h⟩
  | cons round a ih =>
      cases h with
      | cons htakes hrest =>
          obtain ⟨j, ha, hb⟩ := ih hrest
          exact ⟨j, .cons htakes ha, hb⟩

/-- After the last reset no window has been missed, and what follows is a history of its own. -/
theorem History.since_reset (h : i.History config e rounds j) (hmissed : i.missed = 0)
    (hlast : LastReset i.since rounds reset others) :
    ∃ k : Interval, k.since = reset ∧ k.missed = 0 ∧ k.History config e others j ∧
      (∀ round ∈ others, ¬ round.Beats) ∧
      ∀ ahead, Sorted i.since (rounds.flatMap (·.heard) ++ ahead) →
        Sorted reset (others.flatMap (·.heard) ++ ahead) := by
  cases hlast with
  | accepted hnone => exact ⟨i, rfl, hmissed, h, hnone, fun _ => id⟩
  | @heartbeat before _ x y sent writes hword hnone =>
      obtain ⟨k, hbefore, hrest⟩ := h.split
      cases hrest with
      | @cons _ k' _ _ _ htakes hothers =>
          have hsince : k'.since = y.stamp := by
            rw [htakes.since]
            rfl
          refine ⟨k', hsince, ?_, hothers, hnone, fun ahead hsorted => ?_⟩
          · cases htakes with
            | round => exact if_pos hword
          · rw [List.flatMap_append, List.append_assoc] at hsorted
            have hbeat := hbefore.sorted hsorted
            rw [List.flatMap_cons, List.append_assoc] at hbeat
            rw [← hsince]
            exact (htakes.sorted hbeat).2.2

/-- **The misses that a session counts are the windows without a byte since the last reset.** -/
theorem History.count (h : i.History config e rounds j) (hmissed : i.missed = 0)
    (hlast : LastReset i.since rounds reset others) :
    j.missed = idleWindows config reset others := by
  obtain ⟨k, rfl, hzero, hothers, hnone, -⟩ := h.since_reset hmissed hlast
  rw [hothers.missed hnone, hzero, Nat.zero_add]

theorem History.lapses (h : i.History config e rounds j) (hmissed : i.missed = 0)
    (hlate : ∀ x ∈ ahead, ¬ x.stamp.InTime j.since (j.window config))
    (hopen : ¬ openUntil.InTime j.since (j.window config)) :
    ∃ reset, Lapses config e i openUntil (rounds.flatMap (·.heard) ++ ahead) reset
      (j.since.time + j.window config) := by
  obtain ⟨reset, others, hlast⟩ := exists_lastReset i.since rounds
  have hleft : j.window config =
      (5 - idleWindows config reset others) * config.readTimeout.toNat := by
    rw [window, h.count hmissed hlast]
  rw [hleft] at hlate hopen ⊢
  exact ⟨reset, .lapses h hlast rfl hlate hopen⟩

end Interval

/-- What has lapsed is a history, and nothing comes in its last window. -/
theorem Lapses.history {config : ServerConfig} {e : Export} {i : Interval} {openUntil reset : Stamp}
    {arrivals : List Arrival} {time : Nat} (h : Lapses config e i openUntil arrivals reset time)
    (hmissed : i.missed = 0) :
    ∃ rounds ahead j, i.History config e rounds j ∧
      arrivals = rounds.flatMap (·.heard) ++ ahead ∧
      (∀ x ∈ ahead, ¬ x.stamp.InTime j.since (j.window config)) ∧
      ¬ openUntil.InTime j.since (j.window config) ∧
      time = j.since.time + j.window config := by
  cases h with
  | @lapses rounds others ahead j _ left hhistory hlast hleft hlate hopen =>
      have hwindow : j.window config = left * config.readTimeout.toNat := by
        rw [Interval.window, hhistory.count hmissed hlast, hleft]
      rw [← hwindow] at hlate hopen ⊢
      exact ⟨rounds, ahead, j, hhistory, rfl, hlate, hopen, rfl⟩

/-- **No session expires before five windows have gone by since the last reset.** -/
theorem Lapses.reset_le {config : ServerConfig} {e : Export} {i : Interval}
    {openUntil reset : Stamp} {arrivals : List Arrival} {time : Nat}
    (h : Lapses config e i openUntil arrivals reset time) (hmissed : i.missed = 0)
    (hsorted : Sorted i.since arrivals) :
    reset.time + 5 * config.readTimeout.toNat ≤ time := by
  cases h with
  | @lapses rounds others ahead j _ left hhistory hlast hleft hlate hopen =>
      obtain ⟨k, rfl, -, hothers, -, hrest⟩ := hhistory.since_reset hmissed hlast
      have hwindows := hothers.windows_le (hrest ahead hsorted)
      have hfive : 5 ≤ idleWindows config k.since others + left := by omega
      have htotal := Nat.mul_le_mul_right config.readTimeout.toNat hfive
      rw [Nat.add_mul] at htotal
      omega

/-! ## Sessions -/

namespace Session

variable {s : Session} {R : Reaction} {g : Gate} {t : Tree} {e : Export} {i : Interval}
  {start now : Stamp} {past input part : List Arrival} {said : Bytes} {time : Nat}

/-- A session that is within a round has not expired, and its arrivals do not lapse. -/
theorem Within.in_time (h : s.Within e i part said now) (hs : s.Listening g) :
    now.InTime i.since (i.window g.config) ∨
      ∃ x ∈ part, x.stamp.InTime i.since (i.window g.config) := by
  obtain rfl := hs.gate
  cases h with
  | idle _ _ _ hin => exact .inl hin
  | half _ _ _ _ hfirst => exact .inr ⟨_, by simp, hfirst⟩
  | busy _ _ hrequests => exact .inr ⟨_, by simp, hrequests.first⟩

theorem Listening.ne_expired (h : s.Listening g) : ¬ s.Expired time := by
  intro hexpired
  have hcount := h.not_expired
  rw [hexpired.2] at hcount
  cases hcount

/-- What has lapsed are the rounds for which the session stands. -/
theorem Standing.lapsed {rounds : List Round} {j : Interval} {reset : Stamp}
    (h : Standing R g e i input now rounds j part said) (hmissed : i.missed = 0)
    (hlapses : Lapses g.config e i now input reset time) :
    (∀ x ∈ part, ¬ x.stamp.InTime j.since (j.window g.config)) ∧
      ¬ now.InTime j.since (j.window g.config) ∧ time = j.since.time + j.window g.config := by
  obtain ⟨rounds', ahead, j', hhistory, hheard, hlate, hopen, htime⟩ := hlapses.history hmissed
  have hstuck : j.Stuck g.config e part := by
    rcases h.state with ⟨-, hwithin⟩ | hover
    · exact hwithin.stuck g.config
    · have hnow := hover.stuck [] (List.forall_mem_nil _)
      rwa [List.append_nil] at hnow
  have hstuck' : j'.Stuck g.config e ahead := by
    intro round k htakes hbegins
    obtain ⟨x, y, body, hround, hx, -⟩ := htakes.heard_eq
    rw [hround] at hbegins
    exact hlate x (hbegins.subset (by simp)) hx
  -- the arrivals determine the rounds, and these the interval after them
  obtain rfl := h.history.unique hhistory (h.heard.symm.trans hheard) hstuck hstuck'
  obtain rfl := h.history.functional hhistory
  obtain rfl := List.append_cancel_left (h.heard.symm.trans hheard)
  exact ⟨hlate, hopen, htime⟩

/-- **A session has expired if and only if its arrivals have lapsed.** -/
theorem Told.expired_iff (h : Told R g e i input now) (hmissed : i.missed = 0) :
    R.session.Expired time ↔ ∃ reset, Lapses g.config e i now input reset time := by
  obtain ⟨rounds, j, part, said, hstanding⟩ := h
  rcases hstanding.state with ⟨hlistening, hwithin⟩ | hover
  · constructor
    · intro hexpired
      exact absurd hexpired hlistening.ne_expired
    · rintro ⟨reset, hlapses⟩
      obtain ⟨hlate, hopen, -⟩ := hstanding.lapsed hmissed hlapses
      rcases hwithin.in_time hlistening with hnow | ⟨x, hx, hfirst⟩
      · exact absurd hnow hopen
      · exact absurd hfirst (hlate x hx)
  · cases hover.fate with
    | broken hcount hfirst =>
        constructor
        · intro hexpired
          cases hcount.symm.trans hexpired.2
        · rintro ⟨reset, hlapses⟩
          obtain ⟨hlate, -, -⟩ := hstanding.lapsed hmissed hlapses
          exact absurd hfirst (hlate _ (by simp))
    | expired hexpired hlate hearlier hopen =>
        constructor
        · intro hexpired'
          cases hexpired.1.symm.trans hexpired'.1
          rw [hstanding.heard]
          exact hstanding.history.lapses hmissed hlate hopen
        · rintro ⟨reset, hlapses⟩
          obtain ⟨-, -, rfl⟩ := hstanding.lapsed hmissed hlapses
          exact hexpired

/-- A client that closes its side does not make its session expire. -/
theorem Told.expired_hangUp (h : Told R g e i input now) (hangUp : Nat) :
    (R.session.hangUp hangUp R.tree).session.Expired time ↔ R.session.Expired time := by
  obtain ⟨rounds, j, part, said, ⟨-, -, htree, -, -, hstate⟩⟩ := h
  rw [htree]
  rcases hstate with ⟨hlistening, hwithin⟩ | hover
  · rw [hwithin.hangUp hangUp]
    refine iff_of_false ?_ hlistening.ne_expired
    intro hexpired
    cases hlistening.not_expired.symm.trans hexpired.2
  · rw [hangUp_of_closed hover.closed]
    exact Iff.rfl

/-- A client that is admitted by what has arrived is being served. -/
theorem Come.told (h : Come R g t start past now) {rest : List Arrival}
    (hadmits : g.Admits t start past e i rest) :
    ∃ R', R.session = R'.session ∧ R.tree = R'.tree ∧ Told R' g e i rest now := by
  cases h with
  | waiting hwaiting => exact absurd hadmits hwaiting.not_admits
  | denied hdenied =>
      have hnever := hdenied.never [] (List.forall_mem_nil _) e i rest
      rw [List.append_nil] at hnever
      exact absurd hadmits hnever
  | @entered _ _ _ R' hadmits' hR htold =>
      obtain ⟨rfl, rfl, rfl⟩ := hadmits'.unique hadmits
      rw [hR]
      exact ⟨R', rfl, rfl, htold⟩

end Session

/-! ## Schedules -/

namespace Gate

variable {g : Gate} {t : Tree} {start : Stamp} {arrivals rest : List Arrival} {e : Export}
  {i : Interval}

/-- A client is admitted when the last byte of its token has arrived, and has missed nothing. -/
theorem Admits.fresh (h : g.Admits t start arrivals e i rest) (hsorted : Sorted start arrivals) :
    i.missed = 0 ∧ Sorted i.since rest := by
  cases h with
  | admitted => exact ⟨rfl, hsorted.tail⟩

end Gate

namespace Course

open Session

variable {c : Course} {g : Gate} {t : Tree} {e : Export} {i : Interval} {start now : Stamp}
  {past rest : List Arrival} {time : Nat}

theorem expired_meet_of_closed (h : c.session.stage = .closed) (deed : Deed) :
    (c.meet deed).session.Expired time ↔ c.session.Expired time := by
  cases deed with
  | send bytes =>
      rw [meet]
      dsimp only
      rw [arrive_of_closed h]
  | hangUp =>
      rw [meet]
      dsimp only
      rw [hangUp_of_closed h]
      exact Iff.rfl
  | nothing => exact Iff.rfl

/-- Whether a session that has ended has expired does not change. -/
theorem expired_follow_of_closed (h : c.session.stage = .closed) (schedule : Schedule) :
    (c.follow schedule).session.Expired time ↔ c.session.Expired time := by
  induction schedule generalizing c with
  | nil => exact Iff.rfl
  | cons turn rest ih =>
      obtain ⟨hclosed, -, -⟩ := meet_of_closed h turn.deed
      have hmeet : (c.meet turn.deed).session.Expired time ↔ c.session.Expired time :=
        expired_meet_of_closed h turn.deed
      rw [follow_cons, ih (closed_wait hclosed turn.pause), ← hmeet, wait, pass_of_closed hclosed]

/-- The induction is on the turns to come. -/
theorem Came.expired_iff (h : c.Came g t start past now) (schedule : Schedule)
    (hadmits : g.Admits t start (past ++ schedule.arrivals now) e i rest) (hmissed : i.missed = 0) :
    (c.follow schedule).session.Expired time ↔
      ∃ reset, Lapses g.config e i (schedule.openUntil now) rest reset time := by
  induction schedule generalizing c past now with
  | nil =>
      rw [Schedule.arrivals, List.append_nil] at hadmits
      obtain ⟨R', hsession, -, htold⟩ := h.1.told hadmits
      change c.session = R'.session at hsession
      show c.session.Expired time ↔ _
      rw [hsession]
      exact htold.expired_iff hmissed
  | cons turn turns ih =>
      obtain ⟨deed, pause⟩ := turn
      rw [follow_cons]
      cases deed with
      | nothing => exact ih (h.nothing.wait pause) hadmits
      | send bytes =>
          rw [Schedule.arrivals, ← List.append_assoc] at hadmits
          exact ih ((h.send bytes).wait pause) hadmits
      | hangUp =>
          rw [Schedule.arrivals, List.append_nil] at hadmits
          obtain ⟨R', hsession, htree, htold⟩ := h.1.told hadmits
          change c.session = R'.session at hsession
          change c.tree = R'.tree at htree
          have hclosed := closed_meet_hangUp c
          rw [expired_follow_of_closed (closed_wait hclosed pause), Course.wait,
            pass_of_closed hclosed]
          show (c.session.hangUp c.now c.tree).session.Expired time ↔ _
          rw [hsession, htree]
          exact (htold.expired_hangUp c.now).trans (htold.expired_iff hmissed)

/-- A session has ended, or what has become of it can be told from what has arrived. -/
theorem Came.closed_or (h : c.Came g t start past now) (schedule : Schedule) :
    (c.follow schedule).session.stage = .closed ∨
      ∃ past now, (c.follow schedule).Came g t start past now := by
  induction schedule generalizing c past now with
  | nil => exact .inr ⟨past, now, h⟩
  | cons turn rest ih =>
      obtain ⟨deed, pause⟩ := turn
      rw [follow_cons]
      cases deed with
      | nothing => exact ih (h.nothing.wait pause)
      | send bytes => exact ih ((h.send bytes).wait pause)
      | hangUp =>
          have hclosed := closed_wait (closed_meet_hangUp c) pause
          exact .inl (follow_of_closed hclosed rest).1

end Course

/-! ## Silence -/

namespace Session

variable {s : Session} {R : Reaction} {g : Gate} {t : Tree} {e : Export} {i : Interval}
  {start now : Stamp} {past input : List Arrival}

/-- A session that waits for a command can be waited for. -/
theorem Told.listening (h : Told R g e i input now) {served : Export}
    (hidle : R.session.phase = .idle served) : R.session.Listening g := by
  obtain ⟨rounds, j, part, said, hstanding⟩ := h
  rcases hstanding.state with ⟨hlistening, -⟩ | hover
  · exact hlistening
  · obtain ⟨since, hclosed⟩ := phase_of_closed hover.closed
    cases hidle.symm.trans hclosed

theorem Come.listening (h : Come R g t start past now) {served : Export}
    (hidle : R.session.phase = .idle served) : R.session.Listening g := by
  cases h with
  | waiting hwaiting => cases hidle.symm.trans hwaiting.phase
  | denied hdenied =>
      obtain ⟨since, hclosed⟩ := phase_of_closed hdenied.closed
      cases hidle.symm.trans hclosed
  | entered _ hR htold =>
      subst hR
      exact htold.listening hidle

/-- Until when a session waits that has begun to wait for a command at `since`. -/
theorem Listening.limit_idle (h : s.Listening g) {served : Export}
    (hidle : s.phase = .idle served) {since : Nat}
    (hdeadline : s.deadline = since + g.config.readTimeout.toNat) :
    s.limit? = some (since + (5 - s.heartbeat.missed) * g.config.readTimeout.toNat) := by
  have hthreshold : s.heartbeat.threshold = 5 := h.threshold
  have hspare := h.spare
  have hwindows : 5 - s.heartbeat.missed = s.heartbeat.spare + 1 := by
    rw [Heartbeat.spare, hthreshold]
    omega
  rw [Session.limit_idle hidle, hdeadline, h.gate, hwindows, Nat.succ_mul]
  congr 1
  omega

/-- **A client that stays silent loses its session when the windows are over that it has left**, and
not before. -/
theorem Listening.silent (h : s.Listening g) {served : Export} (hidle : s.phase = .idle served)
    {limit : Nat} (hlimit : s.limit? = some limit) :
    s.toEnd.Expired limit ∧
      ∀ time, (s.pass time).closedAt? = if limit ≤ time then some limit else none := by
  have hceiling : s.heartbeat.threshold ≤ Heartbeat.ceiling := by
    rw [h.threshold]
    decide
  have hclosed : ∀ time, limit ≤ time → (s.pass time).closedAt? = some limit := by
    intro time hlate
    have hover : ¬ s.Outlasts time := by rwa [outlasts_iff hlimit, Nat.not_lt]
    rw [closedAt_pass hover hceiling, hlimit]
  constructor
  · rw [toEnd_eq_pass hlimit hceiling]
    exact ⟨phase_of_closedAt (hclosed limit (Nat.le_refl _)),
      expired_pass hidle hlimit (Nat.le_refl _) hceiling⟩
  · intro time
    split
    · next hlate => exact hclosed time hlate
    · next hearly =>
      -- before its limit the session waits on
      have hlasts : s.Outlasts time := by rwa [outlasts_iff hlimit, ← Nat.not_le]
      have hphase := congrArg Session.phase hlasts.pass
      change (s.pass time).phase.timeless = s.phase.timeless at hphase
      rw [hidle] at hphase
      rw [closedAt?]
      cases hpass : (s.pass time).phase with
      | closed since =>
          rw [hpass] at hphase
          cases hphase
      | _ => rfl

end Session

namespace Course

open Session

/-- When a session ends for the heartbeats it has missed. -/
structure Expiry (c : Course) (g : Gate) (t : Tree) (start : Stamp) (schedule : Schedule) :
    Prop where
  /-- It has expired if and only if five full windows without a byte have gone by since the last
  reset, when the fifth of them ended. -/
  expired : ∀ e i rest, g.Admits t start (schedule.arrivals start) e i rest → ∀ time,
    c.session.Expired time ↔
      ∃ reset, Lapses g.config e i (schedule.openUntil start) rest reset time
  /-- That is not earlier than five windows after the reset. -/
  early : ∀ e i rest, g.Admits t start (schedule.arrivals start) e i rest → ∀ reset time,
    Lapses g.config e i (schedule.openUntil start) rest reset time →
      reset.time + 5 * g.config.readTimeout.toNat ≤ time
  /-- Where it has begun to wait for a command at `since`, it ends after the windows that are
  left, if nothing arrives. -/
  silent : ∀ served since, c.session.phase = .idle served →
    c.session.deadline = since + g.config.readTimeout.toNat →
      let limit := since + (5 - c.session.heartbeat.missed) * g.config.readTimeout.toNat
      c.session.heartbeat.missed < 5 ∧ c.session.toEnd.Expired limit ∧
        ∀ time, (c.session.pass time).closedAt? = if limit ≤ time then some limit else none

/-- **A session expires when five full windows have gone by since the last reset**, whatever its
client does and whenever it does. -/
theorem expiry_follow (g : Gate) (t : Tree) (now : Nat) (schedule : Schedule) :
    ((Course.start g t now).follow schedule).Expiry g t ⟨now, 0⟩ schedule := by
  have hcame := came_start g t now
  constructor
  case expired =>
      intro e i rest hadmits time
      have hfresh := hadmits.fresh (schedule.sorted_arrivals _)
      exact hcame.expired_iff schedule hadmits hfresh.1
  case early =>
      intro e i rest hadmits reset time hlapses
      obtain ⟨hmissed, hsorted⟩ := hadmits.fresh (schedule.sorted_arrivals _)
      exact hlapses.reset_le hmissed hsorted
  case silent =>
      intro served since hidle hdeadline
      rcases hcame.closed_or schedule with hclosed | ⟨past, present, hlater⟩
      · obtain ⟨ended, hphase⟩ := phase_of_closed hclosed
        cases hidle.symm.trans hphase
      · have hlistening : Listening _ g := hlater.1.listening hidle
        have hspare := hlistening.spare
        rw [hlistening.threshold] at hspare
        exact ⟨hspare, hlistening.silent hidle (hlistening.limit_idle hidle hdeadline)⟩

set_option maxRecDepth 10000 in
/-- Two windows are missed before the client sends a command.  A request leaves three, a heartbeat
five. -/
example :
    let ended (command : Bytes) :=
      ((Course.start sampleGate sampleTree 0).follow
        [⟨.send (ofKey "key"), 12000⟩, ⟨.send command, 0⟩]).toEnd.session.closedAt?
    ended (Client.opening (.getattr "/")) = some 27000 ∧
      ended (ofCommand .heartbeat) = some 37000 := by
  constructor <;> cbv

end Course
end UnionFS
