import UnionFS.Wire.Error
import UnionFS.Bytes

/-!
# Dialogues

A dialogue is one end of a conversation over a reliable stream of bytes, as a value: it sends bytes,
waits until a number of bytes has arrived, and may consult and change a state of its own.  What it
does is fixed by the bytes it receives, so the same value runs on a recorded input, against another
dialogue, under a clock or over a socket.

* `feed_append`: a dialogue does not notice how its input is cut;
* `feed_bind`: running two dialogues in sequence is running the first, then the second on the rest;
* `length_unread_feed`: no byte is read twice.
-/

namespace UnionFS

/-- One end of a conversation, with a state in `σ`, that ends in an `α` or in an error. -/
inductive Dialogue (σ α : Type) where
  | done (value : α)
  | fail (error : WireError)
  | send (bytes : Bytes) (rest : Dialogue σ α)
  /-- Wait until `count` bytes have arrived, and take them. -/
  | receive (count : Nat) (rest : Bytes → Dialogue σ α)
  | consult (rest : σ → Dialogue σ α)
  | commit (state : σ) (rest : Dialogue σ α)

namespace Dialogue

variable {σ α β γ : Type}

protected def bind : Dialogue σ α → (α → Dialogue σ β) → Dialogue σ β
  | done a, k => k a
  | fail e, _ => fail e
  | send b d, k => send b (d.bind k)
  | receive n d, k => receive n fun b => (d b).bind k
  | consult d, k => consult fun s => (d s).bind k
  | commit s d, k => commit s (d.bind k)

instance : Monad (Dialogue σ) where
  pure := done
  bind := Dialogue.bind

theorem bind_done (d : Dialogue σ α) : d.bind done = d := by
  induction d <;> simp_all [Dialogue.bind]

theorem bind_assoc (d : Dialogue σ α) (f : α → Dialogue σ β) (g : β → Dialogue σ γ) :
    (d.bind f).bind g = d.bind fun a => (f a).bind g := by
  induction d <;> simp_all [Dialogue.bind]

instance : LawfulMonad (Dialogue σ) :=
  LawfulMonad.mk' _ (fun d => bind_done d) (fun _ _ => rfl) bind_assoc

/-- Send these bytes. -/
def say (bytes : Bytes) : Dialogue σ Unit :=
  send bytes (done ())

/-- The next `count` bytes. -/
def take (count : Nat) : Dialogue σ Bytes :=
  receive count done

/-- What the state shows now. -/
def inspect (view : σ → α) : Dialogue σ α :=
  consult fun s => done (view s)

/-- Change the state, and give what the change gives. -/
def update (change : σ → α × σ) : Dialogue σ α :=
  consult fun s => commit (change s).2 (done (change s).1)

/-- The value or error of a dialogue that has come to its end. -/
def outcome? : Dialogue σ α → Option (Except WireError α)
  | done a => some (.ok a)
  | fail e => some (.error e)
  | _ => none

/-- A dialogue that went as far as its input allowed. -/
structure Progress (σ α : Type) where
  /-- What is left to do: an end, or a wait for more than is there. -/
  pending : Dialogue σ α
  sent : Bytes
  unread : Bytes
  state : σ

/-- Run a dialogue on the bytes that are there. -/
def feed : Dialogue σ α → Bytes → σ → Progress σ α
  | done a, input, s => ⟨done a, [], input, s⟩
  | fail e, input, s => ⟨fail e, [], input, s⟩
  | send b d, input, s =>
      let p := d.feed input s
      { p with sent := b ++ p.sent }
  | receive n d, input, s =>
      if n ≤ input.length then (d (input.take n)).feed (input.drop n) s
      else ⟨receive n d, [], input, s⟩
  | consult d, input, s => (d s).feed input s
  | commit s d, input, _ => d.feed input s

/-- A dialogue that was given all the input there will be. -/
structure Transcript (σ α : Type) where
  result : Except WireError α
  sent : Bytes
  unread : Bytes
  state : σ

/-- Nothing more will arrive: a wait ends in `closed`, and takes what was left. -/
def Progress.close (p : Progress σ α) : Transcript σ α :=
  match p.pending.outcome? with
  | some result => ⟨result, p.sent, p.unread, p.state⟩
  | none => ⟨.error .closed, p.sent, [], p.state⟩

/-- Run a dialogue on an input that ends. -/
def runOn (d : Dialogue σ α) (input : Bytes) (s : σ) : Transcript σ α :=
  (d.feed input s).close

theorem length_unread_feed (d : Dialogue σ α) (input : Bytes) (s : σ) :
    (d.feed input s).unread.length ≤ input.length := by
  induction d generalizing input s with
  | done | fail => exact Nat.le_refl _
  | send b d ih => exact ih input s
  | receive n d ih =>
    rw [feed]
    split
    · exact Nat.le_trans (ih _ _ _) (by simp)
    · exact Nat.le_refl _
  | consult d ih => exact ih s input s
  | commit s' d ih => exact ih input s'

/-- How the input is cut makes no difference. -/
theorem feed_append (d : Dialogue σ α) (a b : Bytes) (s : σ) :
    d.feed (a ++ b) s =
      (let p := d.feed a s
       let q := p.pending.feed (p.unread ++ b) p.state
       { q with sent := p.sent ++ q.sent }) := by
  induction d generalizing a s with
  | done | fail => rfl
  | send b' d ih => simp [feed, ih]
  | receive n d ih =>
    by_cases h : n ≤ a.length
    · have h' : n ≤ (a ++ b).length := by simp; omega
      rw [feed, if_pos h', feed, if_pos h, List.take_append_of_le_length h,
        List.drop_append_of_le_length h, ih]
    · have h1 : (receive n d).feed a s = ⟨receive n d, [], a, s⟩ := by rw [feed, if_neg h]
      rw [h1]; simp
  | consult d ih => simp [feed, ih]
  | commit s' d ih => simp [feed, ih]

theorem feed_bind (d : Dialogue σ α) (k : α → Dialogue σ β) (input : Bytes) (s : σ) :
    (d.bind k).feed input s =
      (let p := d.feed input s
       let q := (p.pending.bind k).feed p.unread p.state
       { q with sent := p.sent ++ q.sent }) := by
  induction d generalizing input s with
  | done | fail => simp [feed, Dialogue.bind]
  | send b' d ih => simp [feed, Dialogue.bind, ih]
  | receive n d ih =>
    by_cases h : n ≤ input.length
    · simp only [Dialogue.bind, feed, if_pos h, ih]
    · have h1 : (receive n d).feed input s = ⟨receive n d, [], input, s⟩ := by rw [feed, if_neg h]
      rw [h1]; simp
  | consult d ih => simp [feed, Dialogue.bind, ih]
  | commit s' d ih => simp [feed, Dialogue.bind, ih]

end Dialogue
end UnionFS
