import UnionFS.Session.Basic

/-!
# Schedules

What a client does to a session, and when.  A schedule cuts the client's bytes into pieces and puts
time between them; the course of a session is where the schedule has led it.

* `follow_append`: a schedule in two parts is followed one part after the other;
* `sent_prefix_follow`: what was sent stays sent;
* `now_follow`: the time that a schedule takes is the sum of its pauses.
-/

namespace UnionFS

/-- What a client does at one time. -/
inductive Deed where
  | send (bytes : Bytes)
  /-- Close the client's side. -/
  | hangUp
  | nothing
  deriving DecidableEq, Repr

/-- A deed, and the time after it until the next. -/
structure Turn where
  deed : Deed
  pause : Nat
  deriving DecidableEq, Repr

abbrev Schedule := List Turn

namespace Schedule

/-- All bytes of a schedule, however it cuts them. -/
def bytes (schedule : Schedule) : Bytes :=
  schedule.flatMap fun turn => match turn.deed with
    | .send bytes => bytes
    | .hangUp | .nothing => []

def duration (schedule : Schedule) : Nat :=
  schedule.foldr (fun turn total => turn.pause + total) 0

end Schedule

/-- A session, the tree it serves, the time, and all that it has sent. -/
structure Course where
  session : Session
  tree : Tree
  now : Nat
  sent : Bytes := []

namespace Course

/-- A session that begins. -/
def start (g : Gate) (tree : Tree) (now : Nat) : Course :=
  { session := .start g now, tree, now }

/-- The client does something. -/
def meet (c : Course) (deed : Deed) : Course :=
  let r : Reaction := match deed with
    | .send bytes => c.session.arrive c.now c.tree bytes
    | .hangUp => c.session.hangUp c.now c.tree
    | .nothing => ⟨c.session, c.tree, []⟩
  { c with session := r.session, tree := r.tree, sent := c.sent ++ r.sent }

def wait (c : Course) (pause : Nat) : Course :=
  { c with session := c.session.pass (c.now + pause), now := c.now + pause }

def follow (c : Course) (schedule : Schedule) : Course :=
  schedule.foldl (fun c turn => (c.meet turn.deed).wait turn.pause) c

/-- The client is silent until the session has ended. -/
def toEnd (c : Course) : Course :=
  { c with session := c.session.toEnd }

theorem follow_append (c : Course) (a b : Schedule) :
    c.follow (a ++ b) = (c.follow a).follow b :=
  List.foldl_append

theorem follow_cons (c : Course) (turn : Turn) (rest : Schedule) :
    c.follow (turn :: rest) = ((c.meet turn.deed).wait turn.pause).follow rest := rfl

theorem sent_prefix_follow (c : Course) (schedule : Schedule) :
    c.sent <+: (c.follow schedule).sent := by
  induction schedule generalizing c with
  | nil => exact List.prefix_refl _
  | cons turn rest ih =>
    rw [follow_cons]
    have h : c.sent <+: ((c.meet turn.deed).wait turn.pause).sent := List.prefix_append ..
    exact h.trans (ih _)

theorem now_follow (c : Course) (schedule : Schedule) :
    (c.follow schedule).now = c.now + schedule.duration := by
  induction schedule generalizing c with
  | nil => rfl
  | cons turn rest ih =>
    rw [follow_cons, ih]
    simp [wait, meet, Schedule.duration, Nat.add_assoc]

end Course
end UnionFS
