import UnionFS.Client.Connection

/-!
# Dialogues on a carrier with a state

What a dialogue comes to on a carrier whose steps change a state: one step after another, until the
first that fails.  A connection makes an exchange if it has a stream, and lets go of the stream if
the exchange fails (`transact_eq`).
-/

namespace UnionFS.Client

variable {L S α β : Type}

theorem stateM_bind_apply (x : StateM S α) (f : α → StateM S β) (s : S) :
    (x >>= f) s = f (x s).1 (x s).2 := rfl

namespace Carrier

variable (net : Carrier (StateM S) L) (l : L)

theorem converse_send (bytes : Bytes) (d : Dialogue Unit α) (s : S) :
    net.converse l (.send bytes d) s =
      match net.send l bytes s with
      | (.ok (), s) => net.converse l d s
      | (.error e, s) => (.error e, s) := by
  rw [converse, stateM_bind_apply]
  rcases net.send l bytes s with ⟨_ | _, s'⟩ <;> rfl

theorem converse_receive (count : Nat) (d : Bytes → Dialogue Unit α) (s : S) :
    net.converse l (.receive count d) s =
      match net.receive l count s with
      | (.ok bytes, s) => net.converse l (d bytes) s
      | (.error e, s) => (.error e, s) := by
  rw [converse, stateM_bind_apply]
  rcases net.receive l count s with ⟨_ | _, s'⟩ <;> rfl

/-- **A dialogue of two parts is one part after the other**, if the first does not fail. -/
theorem converse_bind (d : Dialogue Unit α) (k : α → Dialogue Unit β) (s : S) :
    net.converse l (d.bind k) s =
      match net.converse l d s with
      | (.ok a, s) => net.converse l (k a) s
      | (.error e, s) => (.error e, s) := by
  induction d generalizing s with
  | done a => rfl
  | fail e => rfl
  | send b d ih =>
    rw [Dialogue.bind, converse_send, converse_send]
    rcases net.send l b s with ⟨_ | _, s'⟩
    · rfl
    · exact ih s'
  | receive n d ih =>
    rw [Dialogue.bind, converse_receive, converse_receive]
    rcases net.receive l n s with ⟨_ | bytes, s'⟩
    · rfl
    · exact ih bytes s'
  | consult d ih => exact ih () s
  | commit s' d ih => exact ih s

end Carrier

namespace Connection

variable {net : Carrier (StateM S) L} {c : Connection L} {l : L}

theorem transact_none (h : c.line = none) (d : Dialogue Unit (Outcome α)) (s : S) :
    c.transact net d s = ((.error .notConnected, c), s) := by
  rw [transact, h]
  rfl

theorem transact_eq (h : c.line = some l) (d : Dialogue Unit (Outcome α)) (s : S) :
    c.transact net d s =
      match net.converse l d s with
      | (.ok reply, s) => ((reply, c), s)
      | (.error e, s) => ((.error e.code, c.lost), (net.drop l s).2) := by
  rw [transact, h]
  dsimp only
  rw [stateM_bind_apply]
  rcases net.converse l d s with ⟨_ | _, s'⟩ <;> rfl

end Connection
end UnionFS.Client
