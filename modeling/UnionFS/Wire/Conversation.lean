import UnionFS.Wire.Dialogue

/-!
# Conversations

Two dialogues over one reliable stream in each direction.  The far end does at once what it can with
all that it has heard; the near end is what the conversation is followed from.  Since a dialogue
does not notice how its input is cut, no other order of their steps leads elsewhere.

* `hear_append`: the far end may hear its input in any pieces;
* `converse_bind`: a conversation of two parts is one part after the other.
-/

namespace UnionFS.Dialogue

variable {σ τ α β γ : Type}

namespace Progress

/-- More bytes arrive at a dialogue that has gone as far as it could. -/
def hear (p : Progress σ α) (bytes : Bytes) : Progress σ α :=
  let q := p.pending.feed (p.unread ++ bytes) p.state
  { q with sent := p.sent ++ q.sent }

theorem hear_append (p : Progress σ α) (a b : Bytes) : p.hear (a ++ b) = (p.hear a).hear b := by
  simp only [hear]
  rw [← List.append_assoc, feed_append]
  simp

theorem feed_hear (d : Dialogue σ α) (a b : Bytes) (s : σ) :
    (d.feed a s).hear b = d.feed (a ++ b) s := by
  rw [feed_append]
  rfl

end Progress

/-- How far a conversation went, and what the near end said and heard on the way. -/
structure Conversation (σ τ α β : Type) where
  /-- What is left of the near end: an end, or a wait for more than the far end has said. -/
  near : Dialogue σ α
  state : σ
  /-- The far end, whose `sent` is what the near end has not taken yet. -/
  far : Progress τ β
  said : Bytes := []
  heard : Bytes := []

/-- The same conversation, with something said and heard before it. -/
def Conversation.after (said heard : Bytes) (c : Conversation σ τ α β) : Conversation σ τ α β :=
  { c with said := said ++ c.said, heard := heard ++ c.heard }

/-- The near end's part in a conversation with a far end that has gone as far as it could. -/
def converse : Dialogue σ α → σ → Progress τ β → Conversation σ τ α β
  | done a, s, far => { near := done a, state := s, far }
  | fail e, s, far => { near := fail e, state := s, far }
  | send b d, s, far => (d.converse s (far.hear b)).after b []
  | receive n d, s, far =>
    if n ≤ far.sent.length then
      ((d (far.sent.take n)).converse s { far with sent := far.sent.drop n }).after []
        (far.sent.take n)
    else { near := receive n d, state := s, far }
  | consult d, s, far => (d s).converse s far
  | commit s d, _, far => d.converse s far

/-- Both ends of a conversation from its start. -/
def converseWith (near : Dialogue σ α) (far : Dialogue τ β) (s : σ) (t : τ) :
    Conversation σ τ α β :=
  near.converse s (far.feed [] t)

@[simp] theorem Conversation.after_nil (c : Conversation σ τ α β) : c.after [] [] = c := rfl

@[simp] theorem Conversation.after_after (a b a' b' : Bytes) (c : Conversation σ τ α β) :
    (c.after a' b').after a b = c.after (a ++ a') (b ++ b') := by
  simp [Conversation.after]

theorem converse_bind (d : Dialogue σ α) (k : α → Dialogue σ γ) (s : σ) (far : Progress τ β) :
    (d.bind k).converse s far =
      (let c := d.converse s far
       ((c.near.bind k).converse c.state c.far).after c.said c.heard) := by
  induction d generalizing s far with
  | done | fail => rfl
  | send b d ih =>
    simp only [converse, Dialogue.bind, ih, Conversation.after_after]
    rfl
  | receive n d ih =>
    by_cases h : n ≤ far.sent.length
    · simp only [Dialogue.bind, converse, if_pos h, ih, Conversation.after_after]
      rfl
    · have hr : (receive n d).converse s far = { near := receive n d, state := s, far } := by
        rw [converse, if_neg h]
      rw [hr]
      rfl
  | consult d ih => exact ih s s far
  | commit s' d ih => exact ih s' far

end UnionFS.Dialogue
