import UnionFS.Session.Schedule

/-!
# Sessions side by side

A server serves many connections on one tree, each in a session of its own.  Here they are, with the
deeds of their clients in any order.

* `course`: what one of the sessions has come to, by itself;
* `scheduleOf`: what one of the clients does while the others do nothing.
-/

namespace UnionFS

/-- What one of the clients does, and the time until one does something again. -/
structure Move (ι : Type) where
  client : ι
  deed : Deed
  pause : Nat
  deriving DecidableEq, Repr

/-- Sessions that serve one tree, the time, and all that each of them has sent. -/
structure Company (ι : Type) where
  sessions : ι → Session
  tree : Tree
  now : Nat
  sent : ι → Bytes := fun _ => []

variable {ι : Type}

namespace Move

/-- What a move is to the client `i`. -/
def turn [DecidableEq ι] (i : ι) (m : Move ι) : Turn :=
  ⟨if i = m.client then m.deed else .nothing, m.pause⟩

end Move

/-- What the client `i` does of all that is done. -/
def scheduleOf [DecidableEq ι] (i : ι) (moves : List (Move ι)) : Schedule :=
  moves.map (·.turn i)

namespace Company

def course (c : Company ι) (i : ι) : Course :=
  ⟨c.sessions i, c.tree, c.now, c.sent i⟩

def wait (c : Company ι) (pause : Nat) : Company ι :=
  { c with sessions := fun i => (c.sessions i).pass (c.now + pause), now := c.now + pause }

theorem course_wait (c : Company ι) (pause : Nat) (i : ι) :
    (c.wait pause).course i = (c.course i).wait pause := rfl

variable [DecidableEq ι]

/-- One of the clients does something. -/
def meet (c : Company ι) (client : ι) (deed : Deed) : Company ι :=
  let after := (c.course client).meet deed
  { c with
    sessions := fun i => if i = client then after.session else c.sessions i
    tree := after.tree
    sent := fun i => if i = client then after.sent else c.sent i }

/-- The session that is concerned takes its own course. -/
theorem course_meet_self (c : Company ι) (i : ι) (deed : Deed) :
    (c.meet i deed).course i = (c.course i).meet deed := by
  simp [course, meet, Course.meet]

/-- To the others only the tree changes. -/
theorem course_meet_of_ne (c : Company ι) {i j : ι} (h : i ≠ j) (deed : Deed) :
    (c.meet j deed).course i = { c.course i with tree := ((c.course j).meet deed).tree } := by
  simp [course, meet, h]

end Company
end UnionFS
