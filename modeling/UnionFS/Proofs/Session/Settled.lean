import UnionFS.Session.Basic

/-!
# Sessions that have done what they could

A session reacts at once to whatever arrives, so that the end of its stream finds it waiting.  Then
it ends, and nothing more is done to the tree: `Settled`.  This is the case after every reaction
(`settled_arrive`), whatever had arrived before and in whichever pieces.
-/

namespace UnionFS

namespace Dialogue

variable {σ α : Type}

/-- A dialogue that has gone as far as it could goes no further by itself. -/
theorem feed_feed (d : Dialogue σ α) (input : Bytes) (s : σ) :
    (d.feed input s).pending.feed (d.feed input s).unread (d.feed input s).state =
      { d.feed input s with sent := [] } := by
  have h := feed_append d input [] s
  simp only [List.append_nil] at h
  generalize (d.feed input s).pending.feed (d.feed input s).unread (d.feed input s).state = q at h
  -- going on from there would have sent more in one go as well
  have hsent : q.sent = [] := List.append_right_eq_self.mp (congrArg Progress.sent h).symm
  rw [h]
  dsimp only
  rw [← hsent]

end Dialogue

open Dialogue

namespace Session

/-- The end of the stream would change nothing any more. -/
def Settled (s : Session) (t : Tree) : Prop :=
  ∀ now, (s.hangUp now t).tree = t

theorem settled_finish (s : Session) (now : Nat) (t : Tree) : (s.finish now).Settled t :=
  fun _ => rfl

variable {s : Session} {t : Tree}

/-- A session that starts a wait has settled if what it waits with leads nowhere. -/
theorem settled_await {phase : Phase} {unread : Bytes} (now : Nat) (timeout : UInt64)
    (h : ∀ s : Session, s.phase = phase → ∀ now, (s.resume now t unread).tree = t) :
    (s.await now phase unread timeout).Settled t := by
  intro later
  rw [await]
  split
  · exact settled_finish s now t later
  · exact h _ rfl later

theorem settled_closed {time : Nat} (h : s.phase = .closed time) : s.Settled t := by
  intro later
  rw [hangUp, resume, h]

/-- Waiting in the middle of a token leads nowhere: what there was of it has been taken. -/
theorem resume_authenticating (d : Dialogue Tree (Except HandshakeFailure Export)) (input : Bytes)
    (t : Tree) (hw : (d.feed input t).pending.outcome? = none) (s : Session)
    (hs : s.phase = .authenticating (d.feed input t).pending) (now : Nat) :
    (s.resume now (d.feed input t).state (d.feed input t).unread).tree =
      (d.feed input t).state := by
  rw [resume, hs]
  simp only [feed_feed, hw]
  split <;> rfl

/-- Nor does waiting in the middle of a request. -/
theorem resume_busy (e : Export) (d : Dialogue Tree Unit) (input : Bytes) (t : Tree)
    (hw : (d.feed input t).pending.outcome? = none) (s : Session)
    (hs : s.phase = .busy e (d.feed input t).pending) (now : Nat) :
    (s.resume now (d.feed input t).state (d.feed input t).unread).tree =
      (d.feed input t).state := by
  rw [resume, hs]
  simp only [feed_feed, hw]
  split <;> rfl

/-- **Whatever a session has been sent between two requests, it has settled.** -/
theorem settled_serveAll (s : Session) (e : Export) (now : Nat) (t : Tree) (input : Bytes) :
    (s.serveAll e now t input).session.Settled (s.serveAll e now t input).tree := by
  fun_induction s.serveAll e now t input
  -- nothing of a command is there, or half of one
  case case1 s t =>
      refine settled_await now _ ?_
      intro s hs now
      rw [resume, hs]
      dsimp only
      rw [serveAll]
  case case2 s t a =>
      refine settled_await now _ ?_
      intro s hs now
      rw [resume, hs]
      dsimp only
      rw [serveAll]
  case case3 ih | case5 ih | case6 ih => exact ih
  case case4 s t _ _ _ _ => exact settled_finish s now t
  case case7 s t _ _ _ _ _ _ _ p _ _ => exact settled_finish s now p.state
  case case8 s t _ _ rest command _ _ _ p hw =>
      exact settled_await now _ (resume_busy e (e.serve command) rest t hw)

/-- **Whatever arrives at a session, it has settled after that**, if it had before. -/
theorem settled_arrive (h : s.Settled t) (now : Nat) (bytes : Bytes) :
    (s.arrive now t bytes).session.Settled (s.arrive now t bytes).tree := by
  rw [arrive]
  split
  · exact h
  rw [resume]
  -- by what the session waited with
  split
  case h_1 time hs => exact settled_closed hs
  case h_2 e _ | h_3 e _ => exact settled_serveAll s e now t _
  case h_4 pending _ =>
      dsimp only
      split
      · exact settled_serveAll s _ now _ _
      · exact settled_finish s now _
      · next hw =>
        split
        · exact settled_finish s now _
        · intro later
          exact resume_authenticating pending _ t hw _ rfl later
  case h_5 e pending _ =>
      dsimp only
      split
      · exact settled_serveAll s e now _ _
      · exact settled_finish s now _
      · next hw =>
        split
        · exact settled_finish s now _
        · intro later
          exact resume_busy e pending _ t hw _ rfl later

end Session
end UnionFS
