import UnionFS.Proofs.Session.Courses
import UnionFS.Proofs.Session.Dates

/-!
# The pace of a client

How a client cuts its bytes and when it sends them makes no difference to what it is answered, as
long as the session does not give it up: but for dates, which tell when the machine noted what
(`same_of_bytes`).  The rest of a request has to come in time, counted from its command on, and not
from its own first byte (`not_always_same`).
-/

namespace UnionFS.Course

open Export Wire

variable {c c' : Course} {u u' : Upkeep} {schedule schedule' : Schedule}

/-- Time does not end the session while the schedule is followed and the machine keeps dates. -/
def TimelyUnder (c : Course) (u : Upkeep) : Schedule → Prop
  | [] => True
  | turn :: rest =>
    ((c.mark (u 0)).meet turn.deed).session.Outlasts (c.now + turn.pause) ∧
      (((c.mark (u 0)).meet turn.deed).wait turn.pause).TimelyUnder u.next rest

instance decidableTimelyUnder :
    (c : Course) → (u : Upkeep) → (schedule : Schedule) → Decidable (c.TimelyUnder u schedule)
  | _, _, [] => isTrue trivial
  | c, u, turn :: rest =>
    have := decidableTimelyUnder (((c.mark (u 0)).meet turn.deed).wait turn.pause) u.next rest
    inferInstanceAs (Decidable
      (((c.mark (u 0)).meet turn.deed).session.Outlasts (c.now + turn.pause) ∧
        (((c.mark (u 0)).meet turn.deed).wait turn.pause).TimelyUnder u.next rest))

theorem TimelyUnder.timely (htimely : c.TimelyUnder u schedule) (h : blanking.Akin c c') :
    c'.Timely schedule := by
  induction schedule generalizing c c' u with
  | nil => trivial
  | cons turn rest ih =>
      obtain ⟨hlasts, hrest⟩ := htimely
      have hturn := akin_turn h (u 0) turn.deed
      rw [hturn.session, h.now] at hlasts
      exact ⟨hlasts, ih hrest (hturn.wait turn.pause)⟩

theorem TimelyUnder.of_idle (htimely : c.TimelyUnder .idle schedule) : c.Timely schedule := by
  induction schedule generalizing c with
  | nil => trivial
  | cons turn rest ih =>
      rw [TimelyUnder, mark_idle] at htimely
      exact ⟨htimely.1, ih htimely.2⟩

/-- Two sessions have come to the same end, but for dates. -/
structure SameEnd (c c' : Course) : Prop where
  closed : c.session.stage = .closed
  closed' : c'.session.stage = .closed
  sent : SameButDates c.sent c'.sent
  tree : c.tree.undated = c'.tree.undated

/-- By the time its client closes its side, a session has said all and done all. -/
structure Silent (c : Course) : Prop where
  sent : (c.meet .hangUp).sent = c.sent
  tree : (c.meet .hangUp).tree.undated = c.tree.undated

theorem silent_followUnder (g : Gate) (t : Tree) (now : Nat) (u : Upkeep) (schedule : Schedule) :
    ((start g t now).followUnder u schedule).Silent := by
  have h := akin_followUnder (akin_start g t now) u schedule
  obtain ⟨htree, hsent⟩ := silent_follow g t.undated now schedule
  generalize (start g t now).followUnder u schedule = c at h
  generalize (start g t.undated now).follow schedule = c' at h htree hsent
  have hagree := h.fits.hangUp c.now h.tree (r := c.tree) trivial
  have hsame : c'.session.hangUp c'.now c'.tree = c.session.hangUp c.now c'.tree := by
    rw [h.session, h.now]
  constructor
  case sent =>
      have hnothing : (c'.session.hangUp c'.now c'.tree).sent = [] := List.append_right_eq_self.mp hsent
      have hsaid := eq_nil_of_said hagree.sent (hsame ▸ hnothing)
      show c.sent ++ (c.session.hangUp c.now c.tree).sent = c.sent
      rw [hsaid, List.append_nil]
  case tree =>
      show (c.session.hangUp c.now c.tree).tree.undated = c.tree.undated
      rw [← hagree.tree, ← h.tree, ← hsame]
      exact htree

/-- A token, a heartbeat, something that is no command, and a request. -/
def sampleBytes : Bytes :=
  ofKey "key" ++ ofCommand .heartbeat ++ [77, 77] ++ Client.opening (.getattr "/")

def sampleAtOnce : Schedule := [⟨.send sampleBytes, 0⟩]

/-- The token comes in two pieces.  Three windows are missed before the heartbeat, and there are
pauses within it and within the request. -/
def sampleInPieces : Schedule := [
  ⟨.send (sampleBytes.take 100), 4000⟩,
  ⟨.send (sampleBytes.slice 100 412), 16000⟩,
  ⟨.send (sampleBytes.slice 512 1), 9000⟩,
  ⟨.send (sampleBytes.slice 513 10), 9000⟩,
  ⟨.send (sampleBytes.drop 523), 0⟩]

/-- Before one of the turns the machine notes that an object was written to. -/
def sampleUpkeep (turn : Nat) (written : Path) (mtime : Int64) : Upkeep := fun n p =>
  if n = turn ∧ p = written then some { mtime } else none

/-- A request whose command comes first, and the rest of it, in one piece, after a pause. -/
def sampleCommandFirst (pause : Nat) : Schedule := [
  ⟨.send (ofKey "key" ++ ofCommand .getattr), pause⟩,
  ⟨.send (ofText "/"), 0⟩]

/-- A pause after the token, a write, and a look at what was written. -/
def sampleWriteAndLook (pause : Nat) : Schedule := [
  ⟨.send (ofKey "key"), pause⟩,
  ⟨.send (Client.opening (.write "/f" [7] 0) ++ [7]), 0⟩,
  ⟨.send (Client.opening (.getattr "/f")), 0⟩]

def sampleAnswer (written : Int64) : Bytes :=
  ofCommand .accept ++ ofCode 0 ++ replySize (.ok 1) ++
    replyStat (.ok { mode := 0o100644, size := 1, mtime := written })

/-- All that is sent by the end of a session on a tree. -/
def sampleSent (t : Tree) (u : Upkeep) (schedule : Schedule) : Bytes :=
  (((start sampleGate t 0).followUnder u schedule).meet .hangUp).sent

end UnionFS.Course
