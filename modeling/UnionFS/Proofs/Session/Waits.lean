import UnionFS.Proofs.Session.Timing

/-!
# Waits

What exactly time does to a session that waits.  Before the end of its wait, nothing (`pass_of_lt`);
between two requests it counts the windows that have gone by (`pass_idle`); at the limit it ends the
session (`closed_pass`), between two requests because too many windows were missed (`expired_pass`)
and otherwise at once (`pass_of_due`).  A session that is left alone ends (`closed_toEnd`), at its
limit (`toEnd_eq_pass`).
-/

namespace UnionFS.Session

variable {s : Session} {e : Export} {time limit : Nat}

theorem pass_of_lt (h : time < s.deadline) : s.pass time = s := by
  rw [pass, waitsLeft, pass.go, if_pos (by simp [h])]

theorem phase_of_closed (h : s.stage = .closed) : ∃ since, s.phase = .closed since := by
  rw [stage] at h
  cases hphase : s.phase with
  | closed since => exact ⟨since, rfl⟩
  | _ =>
      rw [hphase] at h
      cases h

theorem closedAt_of_closed (h : s.stage = .closed) : ∃ since, s.closedAt? = some since := by
  obtain ⟨since, hphase⟩ := phase_of_closed h
  exact ⟨since, by rw [closedAt?, hphase]⟩

theorem phase_of_closedAt {since : Nat} (h : s.closedAt? = some since) :
    s.phase = .closed since := by
  rw [closedAt?] at h
  split at h
  · next hphase =>
    cases h
    exact hphase
  · cases h

theorem closed_of_closedAt {since : Nat} (h : s.closedAt? = some since) : s.stage = .closed := by
  rw [stage, phase_of_closedAt h]

theorem closed_of_limit (h : s.limit? = none) : s.stage = .closed := by
  rw [limit?] at h
  rw [stage]
  cases hphase : s.phase with
  | closed since => rfl
  | _ =>
      rw [hphase] at h
      cases h

theorem pass_of_closed (h : s.stage = .closed) (time : Nat) : s.pass time = s := by
  obtain ⟨since, hsince⟩ := closedAt_of_closed h
  exact go_of_closed _ hsince

/-- **At its limit the session ends**, however late it is looked at. -/
theorem closed_pass (h : s.limit? = some limit) (hlate : limit ≤ time)
    (hceiling : s.heartbeat.threshold ≤ Heartbeat.ceiling) : (s.pass time).stage = .closed := by
  have hover : ¬ s.Outlasts time := by rwa [outlasts_iff h, Nat.not_lt]
  have hclosed := closedAt_pass hover hceiling
  rw [h] at hclosed
  exact closed_of_closedAt hclosed

/-- Before the token is complete, within a command and within a request a session is given up at the
end of its wait. -/
theorem pass_of_due (h : s.limit? = some s.deadline) (hidle : ∀ e, s.phase ≠ .idle e)
    (hdue : s.deadline ≤ time) : s.pass time = s.finish s.deadline := by
  have hrunOut : s.runOut = s.finish s.deadline := by
    rw [limit?] at h
    rw [runOut]
    cases hphase : s.phase with
    | closed since =>
        rw [hphase] at h
        cases h
    | idle e => exact absurd hphase (hidle e)
    | authenticating | half | busy => rfl
  obtain ⟨hopen, -⟩ := limit_open h
  rw [pass, waitsLeft, pass.go, hopen, Option.isSome_none, Bool.false_or,
    if_neg (by simpa using hdue), hrunOut]
  exact go_of_closed _ rfl

/-- What every wait that runs out keeps, time keeps. -/
theorem pass_of_runOut {P : Session → Prop} (hrunOut : ∀ s, P s → P s.runOut) (h : P s)
    (time : Nat) : P (s.pass time) := by
  rw [pass]
  generalize s.waitsLeft = waits
  induction waits generalizing s with
  | zero => exact h
  | succ waits ih =>
      rw [pass.go]
      split
      · exact h
      · exact ih (hrunOut s h)

/-! ## Between two requests -/

/-- How many windows have gone by, once a window is left that has not. -/
theorem windows_of_lt {since window count : Nat} (h : time < since + (count + 1) * window) :
    max count ((time - since) / window) = count := by
  refine Nat.max_eq_left (Nat.lt_succ_iff.mp ?_)
  rcases Nat.eq_zero_or_pos window with rfl | hpos
  · rw [Nat.div_zero]
    exact Nat.succ_pos _
  · rw [Nat.div_lt_iff_lt_mul hpos]
    have hwindow : 0 < (count + 1) * window := Nat.mul_pos (Nat.succ_pos _) hpos
    show time - since < (count + 1) * window
    omega

/-- One more has gone by if its end is past. -/
theorem windows_of_le {since window count : Nat} (hpos : 0 < window)
    (h : since + (count + 1) * window ≤ time) :
    max (count + 1) ((time - since) / window) = max count ((time - since) / window) := by
  have hcount : count + 1 ≤ (time - since) / window := by
    rw [Nat.le_div_iff_mul_le hpos]
    omega
  omega

/-- The session has been waiting since `since`, and this many windows have gone by. -/
structure Counting (s : Session) (e : Export) (since before count : Nat) : Prop where
  phase : s.phase = .idle e
  ceiling : s.heartbeat.threshold ≤ Heartbeat.ceiling
  missed : s.heartbeat.missed = before + count
  deadline : s.deadline = since + (count + 1) * s.gate.config.readTimeout.toNat

/-- The same, with another count. -/
def counted (s : Session) (since before count : Nat) : Session :=
  { s with
    heartbeat := { s.heartbeat with missed := before + count }
    deadline := since + (count + 1) * s.gate.config.readTimeout.toNat }

variable {since before count : Nat}

theorem Counting.counted_self (h : s.Counting e since before count) :
    s.counted since before count = s := by
  rw [counted, ← h.missed, ← h.deadline]

/-- Another window goes by. -/
theorem Counting.runOut (h : s.Counting e since before count)
    (hspare : before + count + 1 < s.heartbeat.threshold) :
    s.runOut = s.missed ∧ s.missed.Counting e since before (count + 1) ∧
      s.missed.waitsLeft < s.waitsLeft := by
  have hspare' : 0 < s.heartbeat.spare := by
    rw [Heartbeat.spare, h.missed]
    omega
  have hmissed := Heartbeat.missed_miss h.ceiling hspare'
  refine ⟨runOut_idle h.phase hspare', ⟨h.phase, h.ceiling, ?_, ?_⟩, ?_⟩
  · rw [Session.missed, hmissed, h.missed, Nat.add_assoc]
  · rw [Session.missed, h.deadline, Nat.succ_mul (count + 1), Nat.add_assoc]
  · have hthreshold : s.missed.heartbeat.threshold = s.heartbeat.threshold := rfl
    rw [waitsLeft, waitsLeft, hthreshold, Session.missed, hmissed, h.missed]
    omega

/-- The induction is on the waits there are at most. -/
theorem Counting.go {waits : Nat} (h : s.Counting e since before count)
    (hwaits : s.waitsLeft ≤ waits)
    (hin : time < since +
      (s.heartbeat.threshold - before) * s.gate.config.readTimeout.toNat) :
    pass.go time waits s =
      s.counted since before
        (max count ((time - since) / s.gate.config.readTimeout.toNat)) := by
  induction waits generalizing s count with
  | zero => exact absurd hwaits (Nat.not_succ_le_zero _)
  | succ waits ih =>
      have hopen : s.closedAt? = none := by rw [closedAt?, h.phase]
      rw [pass.go, hopen, Option.isSome_none, Bool.false_or]
      by_cases hearly : time < s.deadline
      · rw [if_pos (by simpa using hearly), windows_of_lt (h.deadline ▸ hearly), h.counted_self]
      · -- another window has gone by, and one more may
        rw [if_neg (by simpa using hearly)]
        rw [h.deadline, Nat.not_lt] at hearly
        have hlt : (count + 1) * s.gate.config.readTimeout.toNat <
            (s.heartbeat.threshold - before) * s.gate.config.readTimeout.toNat := by omega
        have hpos : 0 < s.gate.config.readTimeout.toNat :=
          Nat.pos_of_ne_zero fun hzero => by simp [hzero] at hlt
        have hcount := Nat.lt_of_mul_lt_mul_right hlt
        obtain ⟨hrunOut, hcounting, hless⟩ := h.runOut (by omega)
        rw [hrunOut, ih hcounting (by omega) hin]
        show s.counted since before (max (count + 1) _) = _
        rw [← windows_of_le hpos hearly]
        rfl

/-- **A session between two requests counts the windows that have gone by**, as long as they are not
too many. -/
theorem pass_idle (h : s.Counting e since before count)
    (hin : time < since +
      (s.heartbeat.threshold - before) * s.gate.config.readTimeout.toNat)
    (hlater : count ≤ (time - since) / s.gate.config.readTimeout.toNat) :
    s.pass time =
      s.counted since before ((time - since) / s.gate.config.readTimeout.toNat) := by
  rw [pass, h.go (Nat.le_refl _) hin, Nat.max_eq_right hlater]

/-- The induction is on the waits there are at most. -/
theorem expired_go {waits : Nat} (hwaits : s.waitsLeft ≤ waits) (hphase : s.phase = .idle e)
    (h : s.limit? = some limit) (hlate : limit ≤ time)
    (hceiling : s.heartbeat.threshold ≤ Heartbeat.ceiling) :
    (pass.go time waits s).heartbeat.expired = true := by
  induction waits generalizing s with
  | zero => exact absurd hwaits (Nat.not_succ_le_zero _)
  | succ waits ih =>
      obtain ⟨hopen, hdue⟩ := limit_open h
      rw [pass.go, hopen, Option.isSome_none, Bool.false_or, if_neg (by simp; omega)]
      rcases Nat.eq_zero_or_pos s.heartbeat.spare with hspare | hspare
      · -- this window was the last
        have hexpired := Heartbeat.miss_of_no_spare hceiling hspare
        have hrunOut : s.runOut = { s with heartbeat := s.heartbeat.miss }.finish s.deadline := by
          rw [runOut, hphase]
          dsimp only
          rw [if_pos hexpired]
        rw [hrunOut, go_of_closed waits rfl]
        exact hexpired
      · have hrunOut := runOut_idle hphase hspare
        rcases runOut_cases h hceiling with hclosed | ⟨hlimit, hless, hthreshold⟩
        · rw [hrunOut, closedAt?, missed, hphase] at hclosed
          cases hclosed
        · rw [hrunOut] at hlimit hless ⊢
          exact ih (by omega) hphase hlimit hceiling

/-- **A session that is silent between two requests ends for the windows it has missed.** -/
theorem expired_pass (hphase : s.phase = .idle e) (h : s.limit? = some limit)
    (hlate : limit ≤ time) (hceiling : s.heartbeat.threshold ≤ Heartbeat.ceiling) :
    (s.pass time).heartbeat.expired = true :=
  expired_go (Nat.le_refl _) hphase h hlate hceiling

theorem limit_counting (h : s.Counting e since before count)
    (hcount : before + count < s.heartbeat.threshold) :
    s.limit? =
      some (since + (s.heartbeat.threshold - before) * s.gate.config.readTimeout.toNat) := by
  have hsum : s.heartbeat.threshold - before =
      (count + 1) + (s.heartbeat.threshold - 1 - (before + count)) := by omega
  rw [limit_idle h.phase, h.deadline, Heartbeat.spare, h.missed, hsum,
    Nat.add_mul (count + 1), Nat.add_assoc]

/-! ## Left alone -/

theorem go_toEnd_of_closed {since : Nat} (waits : Nat) (h : s.closedAt? = some since) :
    toEnd.go waits s = s := by
  cases waits with
  | zero => rfl
  | succ waits => rw [toEnd.go, h, Option.isSome_some, if_pos rfl]

/-- The induction is on the waits there are at most. -/
theorem closed_toEnd_go {waits : Nat} (hwaits : s.waitsLeft ≤ waits)
    (hceiling : s.heartbeat.threshold ≤ Heartbeat.ceiling) :
    (toEnd.go waits s).stage = .closed := by
  induction waits generalizing s with
  | zero => exact absurd hwaits (Nat.not_succ_le_zero _)
  | succ waits ih =>
      rw [toEnd.go]
      cases hlimit : s.limit? with
      | none =>
          have hclosed : s.stage = .closed := closed_of_limit hlimit
          obtain ⟨since, hsince⟩ := closedAt_of_closed hclosed
          rwa [hsince, Option.isSome_some, if_pos rfl]
      | some limit =>
          obtain ⟨hopen, -⟩ := limit_open hlimit
          rw [hopen, Option.isSome_none, if_neg Bool.false_ne_true]
          rcases runOut_cases hlimit hceiling with hclosed | ⟨-, hless, hthreshold⟩
          · rw [go_toEnd_of_closed waits hclosed]
            exact closed_of_closedAt hclosed
          · exact ih (by omega) (hthreshold ▸ hceiling)

/-- **A session that is left alone ends.** -/
theorem closed_toEnd (hceiling : s.heartbeat.threshold ≤ Heartbeat.ceiling) :
    s.toEnd.stage = .closed :=
  closed_toEnd_go (Nat.le_refl _) hceiling

/-- The induction is on the waits there are at most. -/
theorem go_toEnd_eq (waits : Nat) (h : s.limit? = some limit)
    (hceiling : s.heartbeat.threshold ≤ Heartbeat.ceiling) :
    toEnd.go waits s = pass.go limit waits s := by
  induction waits generalizing s with
  | zero => rfl
  | succ waits ih =>
      obtain ⟨hopen, hdue⟩ := limit_open h
      rw [toEnd.go, pass.go, hopen, Option.isSome_none, Bool.false_or, if_neg Bool.false_ne_true,
        if_neg (by simpa using hdue)]
      rcases runOut_cases h hceiling with hclosed | ⟨hlimit, -, hthreshold⟩
      · rw [go_toEnd_of_closed waits hclosed, go_of_closed waits hclosed]
      · exact ih hlimit (hthreshold ▸ hceiling)

/-- **A session that is left alone ends at its limit.** -/
theorem toEnd_eq_pass (h : s.limit? = some limit)
    (hceiling : s.heartbeat.threshold ≤ Heartbeat.ceiling) : s.toEnd = s.pass limit :=
  go_toEnd_eq _ h hceiling

end UnionFS.Session
