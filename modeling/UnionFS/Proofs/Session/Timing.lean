import Mathlib
import UnionFS.Proofs.Session.Cuts
import UnionFS.Session.Schedule

/-!
# The timing of input

Time does nothing to a session but end it, at its limit (`limit?`).  A client that lets no limit
pass therefore gets the same answers however it cuts its bytes and whenever it sends them
(`meet_hangUp_of_bytes`).
-/

namespace UnionFS

/-- How many more windows may be missed. -/
def Heartbeat.spare (h : Heartbeat) : Nat :=
  h.threshold - 1 - h.missed

/-- Missing a window takes one of the spare ones. -/
theorem Heartbeat.miss_of_spare {h : Heartbeat} (hspare : 0 < h.spare) :
    h.miss.expired = false ∧ h.spare ≤ h.miss.spare + 1 := by
  simp only [spare] at hspare ⊢
  have hmissed : h.miss.missed ≤ h.missed + 1 := Nat.min_le_left ..
  have hthreshold : h.miss.threshold = h.threshold := rfl
  refine ⟨?_, by omega⟩
  rw [expired, decide_eq_false_iff_not]
  omega

/-- A window missed with none to spare is the last. -/
theorem Heartbeat.miss_of_no_spare {h : Heartbeat} (hceiling : h.threshold ≤ ceiling)
    (hspare : h.spare = 0) : h.miss.expired = true := by
  simp only [spare] at hspare
  rw [expired, decide_eq_true_iff, miss]
  dsimp only
  omega

/-- Below the ceiling every miss counts. -/
theorem Heartbeat.missed_miss {h : Heartbeat} (hceiling : h.threshold ≤ ceiling)
    (hspare : 0 < h.spare) : h.miss.missed = h.missed + 1 := by
  simp only [spare] at hspare
  exact Nat.min_eq_left (by omega)

namespace Session

/-- When time ends the session, if nothing arrives.  The token, the second byte of a command and the
rest of a request have until the end of the wait; between two requests there are the windows that
may still be missed, and then one more. -/
def limit? (s : Session) : Option Nat :=
  match s.phase with
  | .closed _ => none
  | .idle _ => some (s.deadline + s.heartbeat.spare * s.gate.config.readTimeout.toNat)
  | .authenticating _ | .half _ | .busy _ _ => some s.deadline

/-- Time does not end the session by `time`. -/
def Outlasts (s : Session) (time : Nat) : Prop :=
  ∀ limit ∈ s.limit?, time < limit

instance (s : Session) (time : Nat) : Decidable (s.Outlasts time) :=
  inferInstanceAs (Decidable (∀ limit ∈ s.limit?, time < limit))

variable {s : Session} {e : Export} {time limit : Nat}

theorem outlasts_iff (h : s.limit? = some limit) : s.Outlasts time ↔ time < limit := by
  simp only [Outlasts, h, Option.mem_some_iff, forall_eq']

theorem limit_idle (h : s.phase = .idle e) :
    s.limit? = some (s.deadline + s.heartbeat.spare * s.gate.config.readTimeout.toNat) := by
  rw [limit?, h]

/-- A session that has missed another window, but not too many. -/
def missed (s : Session) : Session :=
  { s with
    heartbeat := s.heartbeat.miss
    deadline := s.deadline + s.gate.config.readTimeout.toNat }

theorem runOut_idle (h : s.phase = .idle e) (hspare : 0 < s.heartbeat.spare) :
    s.runOut = s.missed := by
  rw [Session.runOut, h]
  dsimp only
  rw [(Heartbeat.miss_of_spare hspare).1, missed, h]
  rfl

/-! ## Before the limit -/

/-- A wait that runs out before the limit is one between two requests, and another follows it. -/
theorem Outlasts.runOut (h : s.Outlasts time) (hdue : s.deadline ≤ time) :
    s.runOut.Outlasts time ∧ s.runOut.timeless = s.timeless := by
  cases hphase : s.phase with
  | closed since =>
      have hrunOut : s.runOut = s := by rw [Session.runOut, hphase]
      rw [hrunOut]
      exact ⟨h, rfl⟩
  | idle e =>
      rw [outlasts_iff (limit_idle hphase)] at h
      have hspare : 0 < s.heartbeat.spare := by
        refine Nat.pos_of_ne_zero fun hzero => ?_
        rw [hzero, Nat.zero_mul] at h
        omega
      rw [runOut_idle hphase hspare]
      refine ⟨?_, rfl⟩
      have hwindows := Nat.mul_le_mul_right s.gate.config.readTimeout.toNat
        (Heartbeat.miss_of_spare hspare).2
      rw [Nat.succ_mul] at hwindows
      rw [outlasts_iff (limit_idle (s := s.missed) hphase), missed]
      dsimp only
      omega
  | authenticating | half | busy =>
      have hlimit : s.limit? = some s.deadline := by rw [limit?, hphase]
      rw [outlasts_iff hlimit] at h
      omega

/-- **Time does nothing to a session before its limit.** -/
theorem Outlasts.pass (h : s.Outlasts time) : (s.pass time).timeless = s.timeless := by
  rw [Session.pass]
  generalize s.waitsLeft = waits
  induction waits generalizing s with
  | zero => rfl
  | succ waits ih =>
      rw [pass.go]
      by_cases hwait : s.closedAt?.isSome ∨ time < s.deadline
      · rw [if_pos (by simpa using hwait)]
      rw [if_neg (by simpa using hwait)]
      obtain ⟨hlasts, hsame⟩ := h.runOut (by omega)
      exact (ih hlasts).trans hsame

/-! ## At the limit -/

/-- Where time is to end a session, a wait that runs out ends it, or leaves one wait less. -/
theorem runOut_cases (h : s.limit? = some limit)
    (hceiling : s.heartbeat.threshold ≤ Heartbeat.ceiling) :
    s.runOut.closedAt? = some limit ∨
      s.runOut.limit? = some limit ∧ s.runOut.waitsLeft < s.waitsLeft ∧
        s.runOut.heartbeat.threshold = s.heartbeat.threshold := by
  cases hphase : s.phase with
  | closed since =>
      rw [limit?, hphase] at h
      cases h
  | idle e =>
      rw [limit_idle hphase, Option.some_inj] at h
      rcases Nat.eq_zero_or_pos s.heartbeat.spare with hspare | hspare
      · rw [hspare, Nat.zero_mul] at h
        refine .inl ?_
        rw [runOut, hphase]
        dsimp only
        rw [if_pos (Heartbeat.miss_of_no_spare hceiling hspare), ← h]
        rfl
      · have hmissed := Heartbeat.missed_miss hceiling hspare
        have hspares : s.heartbeat.spare = s.heartbeat.miss.spare + 1 := by
          simp only [Heartbeat.spare, hmissed] at hspare ⊢
          change _ = s.heartbeat.threshold - 1 - _ + 1
          omega
        have hwaits : s.missed.waitsLeft < s.waitsLeft := by
          simp only [Heartbeat.spare] at hspare
          simp only [waitsLeft, missed, hmissed]
          change s.heartbeat.threshold - _ + 1 < _
          omega
        refine .inr ?_
        rw [runOut_idle hphase hspare, limit_idle (s := s.missed) hphase, ← h, hspares,
          Nat.succ_mul, Nat.add_comm (_ * _), ← Nat.add_assoc]
        exact ⟨rfl, hwaits, rfl⟩
  | authenticating | half | busy =>
      rw [limit?, hphase] at h
      refine .inl ?_
      rw [runOut, hphase, ← h]
      rfl

theorem limit_open (h : s.limit? = some limit) : s.closedAt? = none ∧ s.deadline ≤ limit := by
  rw [limit?] at h
  rw [closedAt?]
  cases hphase : s.phase with
  | closed since =>
      rw [hphase] at h
      cases h
  | _ =>
      rw [hphase] at h
      cases h
      exact ⟨rfl, by omega⟩

theorem go_of_closed {since : Nat} (waits : Nat) (h : s.closedAt? = some since) :
    pass.go time waits s = s := by
  cases waits with
  | zero => rfl
  | succ waits => rw [pass.go, h, Option.isSome_some, Bool.true_or, if_pos rfl]

/-- The induction is on the waits there are at most. -/
theorem closedAt_go {waits : Nat} (hwaits : s.waitsLeft ≤ waits) (h : s.limit? = some limit)
    (hlate : limit ≤ time) (hceiling : s.heartbeat.threshold ≤ Heartbeat.ceiling) :
    (pass.go time waits s).closedAt? = some limit := by
  induction waits generalizing s with
  | zero => exact absurd hwaits (Nat.not_succ_le_zero _)
  | succ waits ih =>
      obtain ⟨hopen, hdue⟩ := limit_open h
      rw [pass.go, hopen, Option.isSome_none, Bool.false_or, if_neg (by simp; omega)]
      rcases runOut_cases h hceiling with hclosed | ⟨hlimit, hless, hthreshold⟩
      · rw [go_of_closed waits hclosed, hclosed]
      · exact ih (by omega) hlimit (hthreshold ▸ hceiling)

/-- **At its limit time ends a session.** -/
theorem closedAt_pass (h : ¬ s.Outlasts time)
    (hceiling : s.heartbeat.threshold ≤ Heartbeat.ceiling) :
    (s.pass time).closedAt? = s.limit? := by
  cases hlimit : s.limit? with
  | none =>
      refine absurd ?_ h
      rw [Outlasts, hlimit]
      nofun
  | some limit =>
      rw [outlasts_iff hlimit, Nat.not_lt] at h
      exact closedAt_go (Nat.le_refl _) hlimit h hceiling

end Session

/-! ## Schedules -/

/-- The client's side stays open. -/
def Schedule.Open (schedule : Schedule) : Prop :=
  ∀ turn ∈ schedule, turn.deed ≠ .hangUp

namespace Course

/-- What the course has come to. -/
def reaction (c : Course) : Reaction :=
  ⟨c.session, c.tree, c.sent⟩

/-- Time does not end the session while the schedule is followed. -/
def Timely (c : Course) : Schedule → Prop
  | [] => True
  | turn :: rest =>
    (c.meet turn.deed).session.Outlasts (c.now + turn.pause) ∧
      ((c.meet turn.deed).wait turn.pause).Timely rest

instance decidableTimely : (c : Course) → (schedule : Schedule) → Decidable (c.Timely schedule)
  | _, [] => isTrue trivial
  | c, turn :: rest =>
    have := decidableTimely ((c.meet turn.deed).wait turn.pause) rest
    inferInstanceAs (Decidable ((c.meet turn.deed).session.Outlasts (c.now + turn.pause) ∧
      ((c.meet turn.deed).wait turn.pause).Timely rest))

/-- The course has come to what these bytes come to when all of them arrive at once. -/
def Heard (c : Course) (g : Gate) (t : Tree) (bytes : Bytes) : Prop :=
  c.reaction.timeless = ((Session.start g 0).resume 0 t bytes).timeless

variable {c c' : Course} {g : Gate} {t : Tree} {bytes : Bytes}

theorem heard_start (g : Gate) (t : Tree) (now : Nat) : (Course.start g t now).Heard g t [] := rfl

theorem Heard.nothing (h : c.Heard g t bytes) : (c.meet .nothing).Heard g t bytes := by
  have hsame : (c.meet .nothing).reaction = c.reaction := by
    simp only [reaction, meet, List.append_nil]
  rwa [Heard, hsame]

theorem Heard.send (h : c.Heard g t bytes) (piece : Bytes) :
    (c.meet (.send piece)).Heard g t (bytes ++ piece) := by
  cases piece with
  | nil =>
      rw [List.append_nil]
      exact h.nothing
  | cons first rest =>
      rw [Heard, Session.resume_append rfl 0 c.now]
      exact Session.goOn_timeless h c.now c.now (first :: rest)

theorem Heard.wait (h : c.Heard g t bytes) {pause : Nat}
    (hlasts : c.session.Outlasts (c.now + pause)) : (c.wait pause).Heard g t bytes := by
  rw [Heard, ← h, reaction, reaction, Reaction.timeless_mk, Reaction.timeless_mk, Course.wait]
  dsimp only
  rw [hlasts.pass]

/-- **How a client cuts its bytes and when it sends them makes no difference**, as long as it is in
time. -/
theorem Heard.follow (h : c.Heard g t bytes) {schedule : Schedule} (hopen : schedule.Open)
    (htimely : c.Timely schedule) : (c.follow schedule).Heard g t (bytes ++ schedule.bytes) := by
  induction schedule generalizing c bytes with
  | nil => rwa [Schedule.bytes, List.flatMap_nil, List.append_nil]
  | cons turn rest ih =>
      obtain ⟨hlasts, hrest⟩ := htimely
      have hopen' : Schedule.Open rest := fun turn hturn => hopen turn (.tail _ hturn)
      obtain ⟨deed, pause⟩ := turn
      rw [follow_cons]
      cases deed with
      | hangUp => exact absurd rfl (hopen _ (.head _))
      | nothing => exact ih (h.nothing.wait hlasts) hopen' hrest
      | send piece =>
          rw [Schedule.bytes, List.flatMap_cons, ← List.append_assoc]
          exact ih ((h.send piece).wait hlasts) hopen' hrest

/-- When the client closes its side, the session ends. -/
theorem closed_meet_hangUp (c : Course) : (c.meet .hangUp).session.stage = .closed :=
  Session.closed_resume rfl c.now c.tree c.session.unread

/-- Courses that have come to the same end the same way. -/
theorem meet_hangUp_timeless (h : c.reaction.timeless = c'.reaction.timeless) :
    (c.meet .hangUp).reaction.timeless = (c'.meet .hangUp).reaction.timeless := by
  obtain ⟨hsession, hunread, htree, hsent⟩ := Reaction.parts_of_timeless h
  change c.session.unread = c'.session.unread at hunread
  change c.tree = c'.tree at htree
  change c.sent = c'.sent at hsent
  have hended : ({ c.session with ended := true } : Session).timeless =
      ({ c'.session with ended := true } : Session).timeless :=
    congrArg (fun s : Session => { s with ended := true }) hsession
  have hresume := Session.resume_timeless hended c.now c'.now c.tree c.session.unread
  rw [htree, hunread] at hresume
  change (({ c.session with ended := true } : Session).resume c.now c.tree
      c.session.unread).timeless.after c.sent = _
  rw [htree, hunread, hresume, hsent]
  rfl

/-- Two schedules of the same bytes, neither of which lets the session wait beyond its limit, make
it send the same and leave the same tree once the client has closed its side. -/
theorem meet_hangUp_of_bytes (g : Gate) (t : Tree) {schedule schedule' : Schedule}
    (hbytes : schedule.bytes = schedule'.bytes) (hopen : schedule.Open) (hopen' : schedule'.Open)
    {now now' : Nat} (htimely : (Course.start g t now).Timely schedule)
    (htimely' : (Course.start g t now').Timely schedule') :
    (let c := ((Course.start g t now).follow schedule).meet .hangUp
     let c' := ((Course.start g t now').follow schedule').meet .hangUp
     c.sent = c'.sent ∧ c.tree = c'.tree ∧
       c.session.stage = .closed ∧ c'.session.stage = .closed) := by
  have heard := (heard_start g t now).follow hopen htimely
  have heard' := (heard_start g t now').follow hopen' htimely'
  rw [hbytes] at heard
  obtain ⟨-, -, htree, hsent⟩ :=
    Reaction.parts_of_timeless (meet_hangUp_timeless (heard.trans heard'.symm))
  exact ⟨hsent, htree, closed_meet_hangUp _, closed_meet_hangUp _⟩

def sampleGate : Gate := ⟨[⟨"/", "root", "key"⟩], Accounts.superuserOnly, {}⟩

def sampleTree : Tree := { nodes := [([], { content := .directory, permissions := 0o755 })] }

/-- A tree with one file. -/
def sampleFile (data : Bytes) : Tree :=
  { nodes := [([], { content := .directory, permissions := 0o755 }),
      ([[102]], { content := .file data, permissions := 0o644 })] }

end Course
end UnionFS
