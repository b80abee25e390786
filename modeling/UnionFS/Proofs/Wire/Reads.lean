import UnionFS.Wire.Conversation
import UnionFS.Wire.Datum

/-!
# What a reader takes

A reader is a dialogue that only receives.  `Reads d b a` says that `d` takes exactly the bytes `b`,
however many more there are, and ends in `a`; it says so without running `d`, and both ways of
running a dialogue follow from it: on a recorded input (`Reads.feed_bind`) and against another
dialogue (`Reads.converse_bind`).

A reader that is given only a part of its bytes waits for the rest (`Reads.untouched`).

Each field has one statement, that its reader takes what its writer wrote.  A message is the fields
in a row, and `Reads.bind` puts the statements in the same row.
-/

namespace UnionFS

namespace Dialogue

variable {σ τ α β γ : Type}

/-- The dialogue takes exactly these bytes, sends nothing, and ends in this value. -/
inductive Reads : Dialogue σ α → Bytes → α → Prop where
  | done (a : α) : Reads (.done a) [] a
  | receive {rest : Bytes → Dialogue σ α} {b b' : Bytes} {a : α} :
    Reads (rest b) b' a → Reads (.receive b.length rest) (b ++ b') a

namespace Reads

theorem of_eq {d : Dialogue σ α} {b b' : Bytes} {a : α} (h : Reads d b a) (hb : b = b') :
    Reads d b' a := by
  subst hb; exact h

theorem take (b : Bytes) : Reads (σ := σ) (Dialogue.take b.length) b b :=
  (Reads.receive (.done b)).of_eq (List.append_nil b)

theorem take_of_length {n : Nat} {b : Bytes} (h : b.length = n) :
    Reads (σ := σ) (Dialogue.take n) b b := by
  subst h; exact take b

/-- **Two readers in a row take their bytes in a row.** -/
theorem bind {d : Dialogue σ α} {k : α → Dialogue σ β} {b b' : Bytes} {a : α} {a' : β}
    (h : Reads d b a) (h' : Reads (k a) b' a') : Reads (d >>= k) (b ++ b') a' := by
  induction h with
  | done a => exact h'
  | receive _ ih =>
    rw [List.append_assoc]
    exact Reads.receive (ih h')

/-- A reader whose value is only looked at takes the same bytes. -/
theorem map {d : Dialogue σ α} {b : Bytes} {a : α} (f : α → β) (h : Reads d b a) :
    Reads (do return f (← d)) b (f a) :=
  (h.bind (.done (f a))).of_eq (List.append_nil b)

/-- **A reader on a recorded input takes its bytes and leaves the rest to what follows.** -/
theorem feed_bind {d : Dialogue σ α} {b : Bytes} {a : α} (h : Reads d b a)
    (k : α → Dialogue σ β) (more : Bytes) (s : σ) :
    (d >>= k).feed (b ++ more) s = (k a).feed more s := by
  induction h with
  | done a => rfl
  | @receive rest b b' a _ ih =>
    -- what is there is enough for the first field, whose bytes come first
    have hlen : b.length ≤ (b ++ b' ++ more).length := by simp only [List.length_append]; omega
    show (Dialogue.receive b.length fun c => (rest c).bind k).feed (b ++ b' ++ more) s = _
    rw [feed, if_pos hlen, List.append_assoc, List.take_left, List.drop_left]
    exact ih

/-- What a reader takes is determined by what is there. -/
theorem unique {d : Dialogue σ α} {b b' more more' : Bytes} {a a' : α} (h : Reads d b a)
    (h' : Reads d b' a') (heq : b ++ more = b' ++ more') (s : σ) :
    b = b' ∧ a = a' ∧ more = more' := by
  have hfeed := h.feed_bind .done more s
  rw [heq, h'.feed_bind .done more' s] at hfeed
  obtain ⟨rfl, rfl⟩ : a' = a ∧ more' = more := by simpa [feed] using hfeed
  exact ⟨List.append_cancel_right heq, rfl, rfl⟩

/-- **A reader in a conversation takes its bytes of what the far end has sent.** -/
theorem converse_bind {d : Dialogue σ α} {b : Bytes} {a : α} (h : Reads d b a)
    (k : α → Dialogue σ γ) (s : σ) (more : Bytes) (far : Progress τ β) :
    (d >>= k).converse s { far with sent := b ++ more } =
      ((k a).converse s { far with sent := more }).after [] b := by
  induction h with
  | done a => rfl
  | @receive rest b b' a _ ih =>
    have hlen : b.length ≤ (b ++ b' ++ more).length := by simp only [List.length_append]; omega
    show (Dialogue.receive b.length fun c => (rest c).bind k).converse s
      { far with sent := b ++ b' ++ more } = _
    rw [converse, if_pos hlen]
    dsimp only
    rw [List.append_assoc, List.take_left, List.drop_left]
    rw [show (rest b).bind k = rest b >>= k from rfl, ih, Conversation.after_after]
    rfl

/-- A reader alone in a conversation. -/
theorem converse {d : Dialogue σ α} {b : Bytes} {a : α} (h : Reads d b a) (s : σ) (more : Bytes)
    (far : Progress τ β) :
    d.converse s { far with sent := b ++ more } =
      { near := Dialogue.done a, state := s, far := { far with sent := more }, heard := b } := by
  have h := h.converse_bind Dialogue.done s more far
  rw [show d >>= Dialogue.done = d.bind Dialogue.done from rfl, bind_done] at h
  rw [h]
  show Conversation.mk (Dialogue.done a) s { far with sent := more } [] (b ++ []) = _
  rw [List.append_nil]

end Reads

/-- The dialogue has come to no value yet, has sent nothing and has left its state as it was. -/
structure Progress.Untouched (p : Progress σ α) (s : σ) : Prop where
  unfinished : ∀ a, p.pending.outcome? ≠ some (.ok a)
  sent : p.sent = []
  state : p.state = s

/-- **A reader that has only a part of its bytes does nothing yet.** -/
theorem Reads.untouched {d : Dialogue σ α} {b : Bytes} {a : α} (h : Reads d b a)
    (k : α → Dialogue σ β) {part : Bytes} (s : σ) (hpart : part <+: b)
    (hlen : part.length < b.length) : ((d >>= k).feed part s).Untouched s := by
  induction h generalizing part with
  | done a => exact absurd hlen (Nat.not_lt_zero _)
  | @receive rest b b' a _ ih =>
    show ((Dialogue.receive b.length fun c => (rest c).bind k).feed part s).Untouched s
    rw [feed]
    split
    · next hb =>
      -- the first field is there, so that the part missing is one of a later field
      obtain ⟨later, rfl⟩ := List.prefix_of_prefix_length_le (List.prefix_append b b') hpart hb
      rw [List.take_left, List.drop_left]
      rw [List.prefix_append_right_inj] at hpart
      simp only [List.length_append] at hlen
      exact ih hpart (by omega)
    · refine ⟨?_, rfl, rfl⟩
      intro a hdone
      cases hdone

end Dialogue

namespace Wire

open Dialogue

variable {σ : Type}

/-! ## Fields of fixed width -/

theorem reads_size (size : UInt64) : Reads (σ := σ) readSize (ofSize size) size := by
  have hlt : size.toNat < 256 ^ 8 := size.toNat_lt
  have h := (Reads.take_of_length (σ := σ) (Bytes.length_ofNat 8 size.toNat)).map
    fun b => UInt64.ofNat (Bytes.toNat b)
  rwa [Bytes.toNat_ofNat hlt, UInt64.ofNat_toNat] at h

theorem reads_code (code : Code) : Reads (σ := σ) readCode (ofCode code) code := by
  have h := (reads_size (σ := σ) code.toUInt64).map UInt64.toInt64
  rwa [Int64.toInt64_toUInt64] at h

/-- No two codes start alike. -/
theorem ofCode_append_inj {c c' : Code} {b b' : Bytes} (h : ofCode c ++ b = ofCode c' ++ b') :
    c = c' ∧ b = b' := by
  have hlen : (ofCode c).length = (ofCode c').length := by
    rw [ofCode, ofCode, Bytes.length_ofNat, Bytes.length_ofNat]
  obtain ⟨hform, hrest⟩ := List.append_inj h hlen
  refine ⟨?_, hrest⟩
  have hread := congrArg (fun b => (UInt64.ofNat (Bytes.toNat b)).toInt64) hform
  have hlt : c.toUInt64.toNat < 256 ^ 8 := c.toUInt64.toNat_lt
  have hlt' : c'.toUInt64.toNat < 256 ^ 8 := c'.toUInt64.toNat_lt
  simp only [ofCode, Bytes.toNat_ofNat hlt, Bytes.toNat_ofNat hlt', UInt64.ofNat_toNat,
    Int64.toInt64_toUInt64] at hread
  exact hread

theorem reads_mask (mask : UInt32) : Reads (σ := σ) readMask (ofMask mask) mask := by
  have hlt : mask.toNat < 256 ^ 4 := mask.toNat_lt
  have h := (Reads.take_of_length (σ := σ) (Bytes.length_ofNat 4 mask.toNat)).map
    fun b => UInt32.ofNat (Bytes.toNat b)
  rwa [Bytes.toNat_ofNat hlt, UInt32.ofNat_toNat] at h

theorem reads_word (word : UInt16) :
    Reads (σ := σ) readWord (Bytes.ofNat 2 word.toNat) word := by
  have hlt : word.toNat < 256 ^ 2 := word.toNat_lt
  have h := (Reads.take_of_length (σ := σ) (Bytes.length_ofNat 2 word.toNat)).map
    fun b => UInt16.ofNat (Bytes.toNat b)
  rwa [Bytes.toNat_ofNat hlt, UInt16.ofNat_toNat] at h

/-- A command is read back from its two bytes. -/
theorem word_ofCommand (c : Command) : UInt16.ofNat (Bytes.toNat (ofCommand c)) = c.word := by
  have hlt : c.word.toNat < 256 ^ 2 := c.word.toNat_lt
  rw [ofCommand, Bytes.toNat_ofNat hlt, UInt16.ofNat_toNat]

theorem reads_command (command : Command) :
    Reads (σ := σ) readCommand (ofCommand command) command := by
  refine ((reads_word command.word).bind ?_).of_eq (List.append_nil _)
  rw [Command.ofWord?_word]
  exact .done command

theorem reads_stat (stat : Stat) : Reads (σ := σ) readStat (ofStat stat) stat := by
  simp only [ofStat, List.append_assoc]
  refine (reads_size stat.dev).bind ?_
  refine (reads_mask stat.mode).bind ?_
  refine (reads_size stat.size).bind ?_
  refine (reads_code stat.atime).bind ?_
  refine (reads_code stat.mtime).bind ?_
  exact (reads_code stat.ctime).map fun ctime => { stat with ctime }

/-! ## Fields with a length -/

/-- The size that stands for a length is that length, where a size can. -/
theorem toNat_ofNat_length {n : Nat} (h : n < 2 ^ 64) : (UInt64.ofNat n).toNat = n := by
  rw [UInt64.toNat_ofNat']
  exact Nat.mod_eq_of_lt h

theorem lt_ofNat_iff {n : Nat} {limit : UInt64} (h : n < 2 ^ 64) :
    limit < UInt64.ofNat n ↔ limit.toNat < n := by
  rw [UInt64.lt_iff_toNat_lt, toNat_ofNat_length h]

theorem not_lt_ofNat {n : Nat} {limit : UInt64} (h : n ≤ limit.toNat) :
    ¬ limit < UInt64.ofNat n := by
  rw [lt_ofNat_iff (Nat.lt_of_le_of_lt h limit.toNat_lt)]
  exact Nat.not_lt.mpr h

/-- A block within the limit is taken as it is announced. -/
theorem readBlock_of_le {n : Nat} {limit : UInt64} (h : n ≤ limit.toNat) :
    readBlock (σ := σ) (UInt64.ofNat n) limit = .take n := by
  have hlen : (UInt64.ofNat n).toNat = n :=
    toNat_ofNat_length (Nat.lt_of_le_of_lt h limit.toNat_lt)
  rw [readBlock, if_neg (not_lt_ofNat h), hlen]

theorem reads_block {block : Bytes} {limit : UInt64} (h : block.length ≤ limit.toNat) :
    Reads (σ := σ) (readBlock (UInt64.ofNat block.length) limit) block block := by
  rw [readBlock_of_le h]
  exact .take block

theorem reads_text {text : String} {limit : UInt64}
    (h : (Utf8.encode text).length ≤ limit.toNat) :
    Reads (σ := σ) (readText limit) (ofText text) text := by
  have hutf : Reads (σ := σ) (ofUtf8 (Utf8.encode text)) [] text := by
    rw [ofUtf8, Utf8.decode_encode]
    exact .done text
  -- the length is checked here and once more with the block
  refine (reads_size _).bind ?_
  rw [if_neg (not_lt_ofNat h)]
  exact ((reads_block h).bind hutf).of_eq (List.append_nil _)

theorem reads_entry {entry : Entry} {limit : UInt64}
    (h : (Utf8.encode entry.name).length ≤ limit.toNat) :
    Reads (σ := σ) (readEntry limit) (ofEntry entry) entry :=
  (reads_text h).bind ((reads_stat entry.stat).map fun stat => Entry.mk entry.name stat)

theorem reads_entries {limit : UInt64} {entries : List Entry}
    (h : ∀ e ∈ entries, (Utf8.encode e.name).length ≤ limit.toNat) :
    Reads (σ := σ) (readEntries limit entries.length) (entries.flatMap ofEntry) entries := by
  induction entries with
  | nil => exact .done []
  | cons e rest ih =>
    have hrest := ih fun x hx => h x (List.mem_cons_of_mem e hx)
    rw [List.flatMap_cons]
    exact (reads_entry (h e List.mem_cons_self)).bind (hrest.map fun rest => e :: rest)

end Wire
end UnionFS
