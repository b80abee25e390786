import UnionFS.Network.Basic
import UnionFS.Proofs.Client.Apart
import UnionFS.Proofs.Client.Replies
import UnionFS.Proofs.Session.Writes

/-!
# Servers at the end of a stream that may break

A remote is a server on a machine of its own, with its own tree, and the stream that leads to it.
The stream may break anywhere: so many bytes still reach the server and so many still come back, in
the middle of a field or not, and after them the client only finds out that nothing goes on.  What
reaches the server is carried out, whether the client learns of it or not.

* `converse_reads`, `converse_reads_short`: a reply is read if all of it comes back, and is an error
  of the stream otherwise;
* `settled_converse`: whatever a client says, the end of the stream changes nothing more.
-/

namespace UnionFS

open Dialogue Wire Client

namespace Line

/-! ## What one stream does -/

theorem take?_append {line : Line} {b more : Bytes} (h : line.arrived = b ++ more) :
    line.take? b.length = some (b, { line with arrived := more }) := by
  have hle : b.length ≤ line.arrived.length := by rw [h, List.length_append]; omega
  rw [Line.take?, if_pos hle, h, List.take_left, List.drop_left]

theorem deliver_session {line : Line} {s : Session} (h : line.far = .session s) (now : Nat)
    (t : Tree) (bytes : Bytes) :
    line.deliver now t bytes =
      (Line.react { line with sent := line.sent ++ bytes } (s.arrive now t bytes),
        (s.arrive now t bytes).tree) := by
  rw [Line.deliver]
  dsimp only
  rw [h]

theorem deliver_scripted {line : Line} {script : Script} (h : line.far = .scripted script)
    (now : Nat) (t : Tree) (bytes : Bytes) :
    (line.deliver now t bytes).1.far = .scripted script ∧ (line.deliver now t bytes).2 = t := by
  rw [Line.deliver]
  dsimp only
  rw [h]
  dsimp only
  split <;> exact ⟨rfl, rfl⟩

end Line

/-- A server on a machine of its own, and the stream that leads to it. -/
structure Remote where
  line : Line
  tree : Tree
  clock : Nat := 0
  /-- How many bytes still reach the server. -/
  reaching : Nat
  /-- How many bytes still come back from it. -/
  returning : Nat
  /-- How the client finds out that the stream does not go on. -/
  failure : WireError

namespace Remote

variable {L α β : Type}

/-- What reaches the server of some bytes is heard at once.  Being heard later would come to the
same: nobody else has to do with this tree. -/
def send (r : Remote) (bytes : Bytes) : Except WireError Unit × Remote :=
  let (line, tree) := r.line.deliver r.clock r.tree (bytes.take r.reaching)
  (if bytes.length ≤ r.reaching then .ok () else .error r.failure,
    { r with line, tree, reaching := r.reaching - bytes.length })

/-- Take the next bytes, if they have been sent and come back. -/
def receive (r : Remote) (count : Nat) : Except WireError Bytes × Remote :=
  match r.line.take? count with
  | some (bytes, line) =>
    if count ≤ r.returning then (.ok bytes, { r with line, returning := r.returning - count })
    else (.error r.failure, { r with returning := 0 })
  | none => (.error r.failure, r)

/-- The server finds the stream ended. -/
def close (r : Remote) : Remote :=
  let (line, tree) := r.line.close r.clock r.tree
  { r with line, tree }

/-- A remote as a client uses it that has a stream to it.  No other is opened. -/
def carrier : Carrier (StateM Remote) L where
  dial _ := fun r => (.error .timeout, r)
  send _ bytes := fun r => r.send bytes
  receive _ count := fun r => r.receive count
  shutdown _ := fun r => (.ok (), r.close)
  drop _ := fun r => ((), r.close)

/-! ## Dialogues with a remote -/

theorem converse_say_bind (l : L) (bytes : Bytes) (k : Unit → Dialogue Unit α) (r : Remote) :
    carrier.converse l (Dialogue.say bytes >>= k) r =
      match r.send bytes with
      | (.ok (), r) => carrier.converse l (k ()) r
      | (.error e, r) => (.error e, r) := by
  show carrier.converse l (.send bytes (k ())) r = _
  rw [Carrier.converse_send, show carrier.send l bytes r = r.send bytes from rfl]
  rcases r.send bytes with ⟨_ | _, r'⟩ <;> rfl

theorem converse_receive (l : L) (count : Nat) (k : Bytes → Dialogue Unit α) (r : Remote) :
    carrier.converse l (.receive count k) r =
      match r.receive count with
      | (.ok bytes, r) => carrier.converse l (k bytes) r
      | (.error e, r) => (.error e, r) := by
  rw [Carrier.converse_receive, show carrier.receive l count r = r.receive count from rfl]
  rcases r.receive count with ⟨_ | _, r'⟩ <;> rfl

@[simp] theorem tree_receive (r : Remote) (count : Nat) : (r.receive count).2.tree = r.tree := by
  rw [receive]
  split
  · split <;> rfl
  · rfl

/-- The same remote, from which the client has taken some bytes and not yet others. -/
def taken (r : Remote) (count : Nat) (more : Bytes) : Remote :=
  { r with line := { r.line with arrived := more }, returning := r.returning - count }

theorem receive_of_le {r : Remote} {b more : Bytes} (h : r.line.arrived = b ++ more)
    (hb : b.length ≤ r.returning) : r.receive b.length = (.ok b, r.taken b.length more) := by
  rw [receive, Line.take?_append h]
  dsimp only
  rw [if_pos hb]
  rfl

theorem receive_of_lt {r : Remote} {b more : Bytes} (h : r.line.arrived = b ++ more)
    (hb : r.returning < b.length) :
    r.receive b.length = (.error r.failure, { r with returning := 0 }) := by
  rw [receive, Line.take?_append h]
  dsimp only
  rw [if_neg (Nat.not_le.mpr hb)]

theorem receive_of_nothing {r : Remote} {count : Nat} (h : r.line.arrived = [])
    (hc : 0 < count) : r.receive count = (.error r.failure, r) := by
  have htake : r.line.take? count = none := by
    rw [Line.take?, h, List.length_nil, if_neg (Nat.not_le.mpr hc)]
  rw [receive, htake]

/-- **A reply that comes back is read.** -/
theorem converse_reads {d : Dialogue Unit α} {b more : Bytes} {a : α} (h : Reads d b a) (l : L)
    (k : α → Dialogue Unit β) {r : Remote} (ha : r.line.arrived = b ++ more)
    (hb : b.length ≤ r.returning) :
    carrier.converse l (d >>= k) r = carrier.converse l (k a) (r.taken b.length more) := by
  induction h generalizing r with
  | done a =>
    have hr : r.taken 0 more = r := by
      rw [taken, ← show r.line.arrived = more from ha]
      rfl
    rw [List.length_nil, hr]
    rfl
  | @receive rest b b' a _ ih =>
    rw [List.append_assoc] at ha
    rw [List.length_append] at hb ⊢
    show carrier.converse l (.receive b.length fun c => (rest c).bind k) r = _
    rw [converse_receive, receive_of_le ha (by omega)]
    refine (ih rfl (by simp only [taken]; omega)).trans ?_
    rw [taken, taken, taken, Nat.sub_sub]

/-- **A reply that does not come back in full is an error of the stream.** -/
theorem converse_reads_short {d : Dialogue Unit α} {b more : Bytes} {a : α} (h : Reads d b a)
    (l : L) (k : α → Dialogue Unit β) {r : Remote} (ha : r.line.arrived = b ++ more)
    (hb : r.returning < b.length) :
    ∃ r', carrier.converse l (d >>= k) r = (.error r.failure, r') ∧ r'.tree = r.tree := by
  induction h generalizing r with
  | done a => exact absurd hb (Nat.not_lt_zero _)
  | @receive rest b b' a _ ih =>
    rw [List.append_assoc] at ha
    rw [List.length_append] at hb
    show ∃ r', carrier.converse l (.receive b.length fun c => (rest c).bind k) r = _ ∧ _
    rw [converse_receive]
    by_cases hfirst : b.length ≤ r.returning
    · -- the first field comes back, so that the stream breaks in a later one
      rw [receive_of_le ha hfirst]
      exact ih rfl (by simp only [taken]; omega)
    · rw [receive_of_lt ha (Nat.not_le.mp hfirst)]
      exact ⟨_, rfl, rfl⟩

/-! ## The end of the stream -/

/-- The end of the stream would change nothing any more. -/
def Settled (r : Remote) : Prop :=
  ∀ s, r.line.far = .session s → s.Settled r.tree

theorem tree_close {r : Remote} (h : r.Settled) : r.close.tree = r.tree := by
  show (r.line.close r.clock r.tree).2 = r.tree
  rw [Line.close]
  split
  · rfl
  · next s hs => exact h s hs r.clock

theorem Settled.send {r : Remote} (h : r.Settled) (bytes : Bytes) : (r.send bytes).2.Settled := by
  intro s hs
  cases hfar : r.line.far with
  | scripted script =>
      have hline := (Line.deliver_scripted hfar r.clock r.tree (bytes.take r.reaching)).1
      have hsame : (r.send bytes).2.line.far = .scripted script := hline
      rw [hsame] at hs
      cases hs
  | session s₀ =>
      -- it has reacted to all that arrived, and waits again
      rw [Remote.send, Line.deliver_session hfar] at hs ⊢
      cases hs
      exact Session.settled_arrive (h s₀ hfar) r.clock _

theorem Settled.receive {r : Remote} (h : r.Settled) (count : Nat) :
    (r.receive count).2.Settled := by
  intro s hs
  rw [tree_receive]
  refine h s (Eq.trans ?_ hs)
  rw [Remote.receive]
  split
  · next line htake =>
    have hfar : line.far = r.line.far := by
      unfold Line.take? at htake
      split at htake
      · cases htake; rfl
      · cases htake
    split
    · exact hfar.symm
    · rfl
  · rfl

/-- **Whatever a client says to a remote, the end of the stream changes nothing more.** -/
theorem settled_converse {r : Remote} (h : r.Settled) (l : L) (d : Dialogue Unit α) :
    (carrier.converse l d r).2.Settled := by
  induction d generalizing r with
  | done | fail => exact h
  | send b d ih =>
    have hsend := h.send b
    rw [show Dialogue.send b d = (Dialogue.say b >>= fun _ => d) from rfl, converse_say_bind]
    generalize r.send b = x at hsend ⊢
    rcases x with ⟨_ | _, r'⟩
    · exact hsend
    · exact ih hsend
  | receive n d ih =>
    have hreceive := h.receive n
    rw [converse_receive]
    generalize r.receive n = x at hreceive ⊢
    rcases x with ⟨_ | bytes, r'⟩
    · exact hreceive
    · exact ih bytes hreceive
  | consult d ih => exact ih () h
  | commit s d ih => exact ih h

end Remote
end UnionFS
