import UnionFS.Wire.Codec

/-!
# States of a dialogue

Two ways to speak of what a dialogue does with its state, whatever it is sent, and whatever others
do with the state while it waits.

* `Keeps W d s`: whatever state is related by `W` to one that `d` finds stays related to it as `d`
  goes on, so `W` tells what `d` leaves alone (`Keeps.feed`);
* `Alike S R d s d' s'`: what the two dialogues send, each from its own state, is related by `S`
  piece by piece (`Said`), they come to the same wait, and the states stay related by `R`
  (`Alike.feed`).  Where both are one dialogue and `S` is equality, nothing that `R` leaves open
  shows in what is sent.

Both go through a dialogue along its binds, as its definition does.
-/

namespace UnionFS.Dialogue

variable {σ α β : Type}

/-! ## What a dialogue keeps -/

/-- Each change of the state that the dialogue makes keeps what is related to the state by `W`. -/
def Keeps (W : σ → σ → Prop) : Dialogue σ α → σ → Prop
  | done _, _ | fail _, _ => True
  | send _ d, s => d.Keeps W s
  | receive _ d, _ => ∀ b s, (d b).Keeps W s
  | consult d, s => (d s).Keeps W s
  | commit s' d, s => (∀ r, W r s → W r s') ∧ d.Keeps W s'

namespace Keeps

variable {W : σ → σ → Prop} {r s : σ}

/-- **However far a dialogue gets, it keeps what its changes keep.** -/
theorem feed {d : Dialogue σ α} (h : d.Keeps W s) (input : Bytes) (hs : W r s) :
    W r (d.feed input s).state := by
  induction d generalizing input s with
  | done | fail => exact hs
  | send b d ih => exact ih h input hs
  | receive n d ih =>
      rw [Dialogue.feed]
      split
      · exact ih _ (h _ _) _ hs
      · exact hs
  | consult d ih => exact ih s h input hs
  | commit s' d ih => exact ih h.2 input (h.1 r hs)

/-- What it waits for then will keep it too, whatever state it finds. -/
theorem pending {d : Dialogue σ α} (h : d.Keeps W s) (input : Bytes) (r : σ) :
    (d.feed input s).pending.Keeps W r := by
  induction d generalizing input s with
  | done | fail => trivial
  | send b d ih => exact ih h input
  | receive n d ih =>
      rw [Dialogue.feed]
      split
      · exact ih _ (h _ _) _
      · exact h
  | consult d ih => exact ih s h input
  | commit s' d ih => exact ih h.2 input

theorem bind {d : Dialogue σ α} {k : α → Dialogue σ β} (h : d.Keeps W s)
    (hk : ∀ a r, (k a).Keeps W r) : (d >>= k).Keeps W s := by
  show (d.bind k).Keeps W s
  induction d generalizing s with
  | done a => exact hk a s
  | fail => trivial
  | send b d ih => exact ih h
  | receive n d ih => exact fun b r => ih b (h b r)
  | consult d ih => exact ih s h
  | commit s' d ih => exact ⟨h.1, ih h.2⟩

/-- What follows a look at the state may use what it showed. -/
theorem inspect_bind {view : σ → α} {k : α → Dialogue σ β} (h : (k (view s)).Keeps W s) :
    (inspect view >>= k).Keeps W s :=
  h

theorem inspect (view : σ → α) : (Dialogue.inspect view).Keeps W s := trivial

theorem update {change : σ → α × σ} (h : ∀ r, W r s → W r (change s).2) :
    (Dialogue.update change).Keeps W s :=
  ⟨h, trivial⟩

theorem say (bytes : Bytes) : (Dialogue.say bytes).Keeps W s := trivial

theorem take (n : Nat) : (Dialogue.take n).Keeps W s := fun _ _ => trivial

end Keeps

/-! ## Dialogues that cannot be told apart -/

/-- Bytes that are related piece by piece. -/
inductive Said (S : Bytes → Bytes → Prop) : Bytes → Bytes → Prop where
  | nil : Said S [] []
  | piece {b b' rest rest' : Bytes} :
    S b b' → Said S rest rest' → Said S (b ++ rest) (b' ++ rest')

namespace Said

variable {S : Bytes → Bytes → Prop} {a a' b b' : Bytes}

theorem append (h : Said S a a') (h' : Said S b b') : Said S (a ++ b) (a' ++ b') := by
  induction h with
  | nil => exact h'
  | piece hS _ ih =>
      rw [List.append_assoc, List.append_assoc]
      exact .piece hS ih

theorem one (h : S b b') : Said S b b' := by
  have hpiece := Said.piece h .nil
  rwa [List.append_nil, List.append_nil] at hpiece

theorem eq (h : Said Eq b b') : b = b' := by
  induction h with
  | nil => rfl
  | piece hpiece _ ih => rw [hpiece, ih]

end Said

/-- The dialogues send what is related and come to the same waits, and their states stay related.
While they wait, their states may become any others that are related. -/
inductive Alike (S : Bytes → Bytes → Prop) (R : σ → σ → Prop) :
    Dialogue σ α → σ → Dialogue σ α → σ → Prop where
  | done {s s' : σ} (a : α) : R s s' → Alike S R (done a) s (done a) s'
  | fail {s s' : σ} (e : WireError) : R s s' → Alike S R (fail e) s (fail e) s'
  | send {d d' : Dialogue σ α} {s s' : σ} {b b' : Bytes} :
    S b b' → Alike S R d s d' s' → Alike S R (send b d) s (send b' d') s'
  | receive {d : Bytes → Dialogue σ α} {s s' : σ} (n : Nat) :
    R s s' → (∀ b r r', R r r' → Alike S R (d b) r (d b) r') →
    Alike S R (receive n d) s (receive n d) s'
  | consult {d d' : σ → Dialogue σ α} {s s' : σ} :
    Alike S R (d s) s (d' s') s' → Alike S R (consult d) s (consult d') s'
  | commit {d d' : Dialogue σ α} {r r' s s' : σ} :
    Alike S R d r d' r' → Alike S R (commit r d) s (commit r' d') s'

namespace Alike

variable {S : Bytes → Bytes → Prop} {R : σ → σ → Prop} {d d' : Dialogue σ α} {s s' : σ}

/-- **Dialogues that cannot be told apart send what is related, leave the same unread and wait for
the same**, and cannot be told apart afterwards. -/
theorem feed (h : Alike S R d s d' s') (input : Bytes) :
    Said S (d.feed input s).sent (d'.feed input s').sent
      ∧ (d.feed input s).unread = (d'.feed input s').unread
      ∧ (d.feed input s).pending = (d'.feed input s').pending
      ∧ R (d.feed input s).state (d'.feed input s').state
      ∧ ∀ r r', R r r' →
        Alike S R (d.feed input s).pending r (d.feed input s).pending r' := by
  induction h generalizing input with
  | done a hR => exact ⟨.nil, rfl, rfl, hR, fun r r' hr => .done a hr⟩
  | fail e hR => exact ⟨.nil, rfl, rfl, hR, fun r r' hr => .fail e hr⟩
  | send hS _ ih =>
      obtain ⟨hsent, hrest⟩ := ih input
      exact ⟨.piece hS hsent, hrest⟩
  | receive n hR hd ih =>
      -- both wait for as many bytes, so either both go on or neither
      rw [Dialogue.feed, Dialogue.feed]
      split
      · exact ih _ _ _ hR _
      · exact ⟨.nil, rfl, rfl, hR, fun r r' hr => .receive n hr hd⟩
  | consult _ ih | commit _ ih => exact ih input

theorem bind {k : α → Dialogue σ β} (h : Alike S R d s d' s')
    (hk : ∀ a r r', R r r' → Alike S R (k a) r (k a) r') :
    Alike S R (d >>= k) s (d' >>= k) s' := by
  show Alike S R (d.bind k) s (d'.bind k) s'
  induction h with
  | done a hR => exact hk a _ _ hR
  | fail e hR => exact .fail e hR
  | send hS _ ih => exact .send hS ih
  | receive n hR _ ih => exact .receive n hR ih
  | consult _ ih => exact .consult ih
  | commit _ ih => exact .commit ih

theorem say {b b' : Bytes} (hS : S b b') (h : R s s') :
    Alike S R (Dialogue.say b) s (Dialogue.say b') s' :=
  .send hS (.done () h)

theorem take (n : Nat) (h : R s s') : Alike S R (Dialogue.take n) s (Dialogue.take n) s' :=
  .receive n h fun b _ _ hr => .done b hr

/-- A look at what related states have in common. -/
theorem inspect {view : σ → α} (h : R s s') (hview : view s = view s') :
    Alike S R (Dialogue.inspect view) s (Dialogue.inspect view) s' := by
  refine .consult ?_
  rw [hview]
  exact .done _ h

/-- What a look shows may differ where it is only sent. -/
theorem answer {view : σ → α} {form : α → Bytes} (h : R s s')
    (hS : S (form (view s)) (form (view s'))) :
    Alike S R (do Dialogue.say (form (← .inspect view))) s
      (do Dialogue.say (form (← .inspect view))) s' :=
  .consult (.say hS h)

theorem update {change : σ → α × σ} (hvalue : (change s).1 = (change s').1)
    (h : R (change s).2 (change s').2) :
    Alike S R (Dialogue.update change) s (Dialogue.update change) s' := by
  refine .consult (.commit ?_)
  rw [hvalue]
  exact .done _ h

end Alike

/-! ## Readers -/

/-- The dialogue neither looks at its state nor changes it. -/
structure Stateless (d : Dialogue σ α) : Prop where
  keeps : ∀ W s, d.Keeps W s
  alike : ∀ S R s s', (∀ b, S b b) → R s s' → Alike S R d s d s'

namespace Stateless

theorem done (a : α) : Stateless (σ := σ) (Dialogue.done a) :=
  ⟨fun _ _ => trivial, fun _ _ _ _ _ h => .done a h⟩

theorem fail (e : WireError) : Stateless (σ := σ) (α := α) (Dialogue.fail e) :=
  ⟨fun _ _ => trivial, fun _ _ _ _ _ h => .fail e h⟩

theorem take (n : Nat) : Stateless (σ := σ) (Dialogue.take n) :=
  ⟨fun _ _ => .take n, fun _ _ _ _ _ h => .take n h⟩

theorem say (bytes : Bytes) : Stateless (σ := σ) (Dialogue.say bytes) :=
  ⟨fun _ _ => .say bytes, fun _ _ _ _ hS h => .say (hS bytes) h⟩

theorem bind {d : Dialogue σ α} {k : α → Dialogue σ β} (h : d.Stateless)
    (hk : ∀ a, (k a).Stateless) : (d >>= k).Stateless :=
  ⟨fun W s => (h.keeps W s).bind fun a r => (hk a).keeps W r,
    fun S R s s' hS hs => (h.alike S R s s' hS hs).bind fun a r r' hr =>
      (hk a).alike S R r r' hS hr⟩

end Stateless

end Dialogue

namespace Wire

open Dialogue

variable {σ : Type}

theorem stateless_readSize : Stateless (σ := σ) readSize := .bind (.take 8) fun _ => .done _

theorem stateless_readMask : Stateless (σ := σ) readMask := .bind (.take 4) fun _ => .done _

theorem stateless_readKey : Stateless (σ := σ) readKey := by
  refine .bind (.take _) fun token => ?_
  rw [ofUtf8]
  split
  · exact .done _
  · exact .fail _

theorem stateless_readBlock (length limit : UInt64) :
    Stateless (σ := σ) (readBlock length limit) := by
  unfold readBlock
  split
  · exact .fail _
  · exact .take _

end Wire
end UnionFS
