import UnionFS.Proofs.Wire.Reads

/-!
# Readers on any input

`Reads` says what a reader takes of an input that was written for it.  Here the input may be
anything.  Either a reader takes a prefix of it, which then has the reader's form (`reads_size_iff`,
`reads_block_iff`, ..), or it stalls: it waits for more, or gives the stream up, and has said and
changed nothing (`Reader.feed_bind`).
-/

namespace UnionFS

namespace Dialogue

variable {σ α β : Type}

/-! ## What a reader has taken -/

theorem reads_done_iff {a a' : α} {b : Bytes} :
    Reads (σ := σ) (.done a) b a' ↔ b = [] ∧ a' = a := by
  constructor
  · intro h
    cases h
    exact ⟨rfl, rfl⟩
  · rintro ⟨rfl, rfl⟩
    exact .done a'

theorem reads_take_iff {n : Nat} {b c : Bytes} :
    Reads (σ := σ) (take n) b c ↔ b = c ∧ b.length = n := by
  constructor
  · intro h
    cases h with
    | receive h =>
        cases h
        exact ⟨List.append_nil _, by rw [List.append_nil]⟩
  · rintro ⟨rfl, hlen⟩
    exact .take_of_length hlen

/-- Two readers in a row have taken their bytes in a row. -/
theorem reads_bind_iff {d : Dialogue σ α} {k : α → Dialogue σ β} {b : Bytes} {c : β} :
    Reads (d >>= k) b c ↔ ∃ a b₁ b₂, Reads d b₁ a ∧ Reads (k a) b₂ c ∧ b = b₁ ++ b₂ := by
  constructor
  · intro h
    change Reads (d.bind k) b c at h
    induction d generalizing b with
    | done a => exact ⟨a, [], b, .done a, h, rfl⟩
    | receive n rest ih =>
        cases h with
        | receive h =>
            obtain ⟨a, b₁, b₂, hd, hk, rfl⟩ := ih _ h
            exact ⟨a, _, b₂, .receive hd, hk, (List.append_assoc ..).symm⟩
    | fail | send | consult | commit => cases h
  · rintro ⟨a, b₁, b₂, hd, hk, rfl⟩
    exact hd.bind hk

theorem reads_map_iff {f : α → β} {d : Dialogue σ α} {b : Bytes} {c : β} :
    Reads (do return f (← d)) b c ↔ ∃ a, Reads d b a ∧ c = f a := by
  constructor
  · intro h
    obtain ⟨a, b₁, b₂, hd, hk, rfl⟩ := reads_bind_iff.mp h
    obtain ⟨rfl, hc⟩ := reads_done_iff.mp hk
    exact ⟨a, by rwa [List.append_nil], hc⟩
  · rintro ⟨a, hd, rfl⟩
    exact hd.map f

/-! ## Readers -/

/-- The dialogue only receives, and what it gives up at is the end of all trust in the stream. -/
def Reader : Dialogue σ α → Prop
  | done _ => True
  | fail error => error.isFatal = true
  | receive _ d => ∀ b, (d b).Reader
  | send _ _ | consult _ | commit _ _ => False

/-- The dialogue waits or has given the stream up; it has said no more than `sent`, and its state is
still `s`. -/
structure Progress.Stalled (p : Progress σ α) (sent : Bytes) (s : σ) : Prop where
  unfinished : ∀ result, p.pending.outcome? = some result →
    ∃ error : WireError, error.isFatal = true ∧ result = .error error
  sent : p.sent = sent
  state : p.state = s

namespace Progress.Stalled

variable {p : Progress σ α} {sent : Bytes} {s : σ}

theorem waiting (n : Nat) (d : Bytes → Dialogue σ α) (input : Bytes) (s : σ) :
    (⟨receive n d, [], input, s⟩ : Progress σ α).Stalled [] s := by
  refine ⟨?_, rfl, rfl⟩
  intro result h
  cases h

theorem after (h : p.Stalled sent s) (first : Bytes) :
    ({ p with sent := first ++ p.sent } : Progress σ α).Stalled (first ++ sent) s :=
  ⟨h.unfinished, congrArg (first ++ ·) h.sent, h.state⟩

/-- At the end of the stream a wait is given up as well. -/
theorem close (h : p.Stalled sent s) :
    ∃ error : WireError, error.isFatal = true ∧ p.close.result = .error error ∧
      p.close.sent = sent ∧ p.close.state = s := by
  rw [Progress.close]
  split
  · next result hresult =>
    obtain ⟨error, hfatal, rfl⟩ := h.unfinished result hresult
    exact ⟨error, hfatal, rfl, h.sent, h.state⟩
  · exact ⟨.closed, rfl, rfl, h.sent, h.state⟩

end Progress.Stalled

namespace Reader

theorem take (n : Nat) : Reader (σ := σ) (Dialogue.take n) := fun _ => trivial

theorem bind {d : Dialogue σ α} {k : α → Dialogue σ β} (h : d.Reader) (hk : ∀ a, (k a).Reader) :
    (d >>= k).Reader := by
  show (d.bind k).Reader
  induction d with
  | done a => exact hk a
  | fail error => exact h
  | receive n d ih => exact fun b => ih b (h b)
  | send | consult | commit => exact absurd h id

theorem map {d : Dialogue σ α} (f : α → β) (h : d.Reader) :
    Reader (do return f (← d)) := h.bind fun _ => trivial

/-- **Whatever the input, a reader takes a prefix of it and leaves the rest to what follows, or it
stalls.** -/
theorem feed_bind {d : Dialogue σ α} (h : d.Reader) (k : α → Dialogue σ β) (input : Bytes)
    (s : σ) :
    (∃ b a rest, Reads d b a ∧ input = b ++ rest ∧ (d >>= k).feed input s = (k a).feed rest s) ∨
      ((d >>= k).feed input s).Stalled [] s := by
  induction d generalizing input with
  | done a => exact .inl ⟨[], a, input, .done a, rfl, rfl⟩
  | fail error =>
      refine .inr ⟨?_, rfl, rfl⟩
      intro result hresult
      cases hresult
      exact ⟨error, h, rfl⟩
  | receive n d ih =>
      show _ ∨ ((receive n fun b => (d b).bind k).feed input s).Stalled [] s
      rw [feed]
      by_cases hn : n ≤ input.length
      · rw [if_pos hn]
        have hlen : (input.take n).length = n := List.length_take_of_le hn
        rcases ih _ (h _) (input.drop n) with ⟨b, a, rest, hreads, hdrop, hfeed⟩ | hstalled
        · -- the first field is the front of the input, and the others are what comes behind it
          have hinput : input = input.take n ++ b ++ rest := by
            rw [List.append_assoc, ← hdrop, List.take_append_drop]
          have hfirst : Reads (receive n d) (input.take n ++ b) a := by
            have hfields : Reads (receive (input.take n).length d) (input.take n ++ b) a :=
              .receive hreads
            rwa [hlen] at hfields
          refine .inl ⟨_, a, rest, hfirst, hinput, ?_⟩
          show (receive n fun b => (d b).bind k).feed input s = _
          rw [feed, if_pos hn]
          exact hfeed
        · exact .inr hstalled
      · rw [if_neg hn]
        exact .inr (.waiting n _ input s)
  | send | consult | commit => exact absurd h id

end Reader

end Dialogue

namespace Wire

open Dialogue

variable {σ : Type}

/-! ## Fields of fixed width -/

/-- A number of a fixed width has been read from its form. -/
theorem reads_number_iff {α : Type} {width : Nat} {ofNumber : Nat → α} {toNumber : α → Nat}
    (hlt : ∀ a, toNumber a < 256 ^ width) (hof : ∀ a, ofNumber (toNumber a) = a)
    (hto : ∀ n, n < 256 ^ width → toNumber (ofNumber n) = n) {b : Bytes} {a : α} :
    Reads (σ := σ) (do return ofNumber (Bytes.toNat (← .take width))) b a ↔
      b = Bytes.ofNat width (toNumber a) := by
  rw [reads_map_iff]
  constructor
  · rintro ⟨c, htake, rfl⟩
    obtain ⟨rfl, rfl⟩ := reads_take_iff.mp htake
    rw [hto _ (Bytes.toNat_lt b), Bytes.ofNat_toNat]
  · rintro rfl
    refine ⟨_, .take_of_length (Bytes.length_ofNat ..), ?_⟩
    rw [Bytes.toNat_ofNat (hlt a), hof]

theorem reads_size_iff {b : Bytes} {size : UInt64} :
    Reads (σ := σ) readSize b size ↔ b = ofSize size :=
  reads_number_iff UInt64.toNat_lt (fun _ => UInt64.ofNat_toNat)
    fun _ hn => UInt64.toNat_ofNat_of_lt' hn

theorem reads_mask_iff {b : Bytes} {mask : UInt32} :
    Reads (σ := σ) readMask b mask ↔ b = ofMask mask :=
  reads_number_iff UInt32.toNat_lt (fun _ => UInt32.ofNat_toNat)
    fun _ hn => UInt32.toNat_ofNat_of_lt' hn

theorem reader_size : Reader (σ := σ) readSize := .map _ (.take 8)

theorem reader_mask : Reader (σ := σ) readMask := .map _ (.take 4)

/-- Any eight bytes are a size. -/
theorem exists_ofSize {b : Bytes} (h : b.length = 8) : ∃ size, b = ofSize size := by
  have htake := (Reads.take_of_length (σ := Unit) h).map fun b => UInt64.ofNat (Bytes.toNat b)
  exact ⟨_, reads_size_iff.mp htake⟩

/-- Any sixteen are two. -/
theorem exists_ofSizes {b : Bytes} (h : b.length = 16) :
    ∃ size size', b = ofSize size ++ ofSize size' := by
  obtain ⟨size, hsize⟩ := exists_ofSize (b := b.take 8) (by rw [List.length_take]; omega)
  obtain ⟨size', hsize'⟩ := exists_ofSize (b := b.drop 8) (by rw [List.length_drop]; omega)
  exact ⟨size, size', by rw [← hsize, ← hsize', List.take_append_drop]⟩

theorem exists_ofMask {b : Bytes} (h : b.length = 4) : ∃ mask, b = ofMask mask := by
  have htake := (Reads.take_of_length (σ := Unit) h).map fun b => UInt32.ofNat (Bytes.toNat b)
  exact ⟨_, reads_mask_iff.mp htake⟩

/-! ## Blocks -/

theorem reads_block_iff {length limit : UInt64} {b block : Bytes} :
    Reads (σ := σ) (readBlock length limit) b block ↔
      length ≤ limit ∧ b = block ∧ block.length = length.toNat := by
  rw [readBlock]
  split
  · next hgt =>
    constructor
    · intro h
      cases h
    · intro h
      exact absurd hgt (UInt64.not_lt.mpr h.1)
  · next hle =>
    rw [reads_take_iff]
    constructor
    · rintro ⟨rfl, hlen⟩
      exact ⟨UInt64.not_lt.mp hle, rfl, hlen⟩
    · rintro ⟨-, rfl, hlen⟩
      exact ⟨rfl, hlen⟩

theorem reader_block (length limit : UInt64) : Reader (σ := σ) (readBlock length limit) := by
  rw [readBlock]
  split
  · show WireError.isFatal (.lengthExceeded .payload length limit) = true
    rfl
  · exact .take _

end Wire
end UnionFS
