import UnionFS.Proofs.Wire.Reads

/-!
# What is said and heard

`Runs d said heard a`: the dialogue comes to its end in `a`, has said these bytes and heard those.
`Breaks d heard`: it has heard these bytes and was cut off, or gave up, before its end.  Both are
about one end of a conversation only, and about any bytes at all, well-formed or not.

Each field has one statement, that its reader hears nothing but what its writer writes
(`runs_size`, `runs_stat`, ..): the other direction of what `Reads` says.
-/

namespace UnionFS

namespace Dialogue

variable {α β : Type}

/-- The dialogue ends in this value when it has said and heard these bytes. -/
inductive Runs : Dialogue Unit α → Bytes → Bytes → α → Prop where
  | done (a : α) : Runs (.done a) [] [] a
  | send {b said heard : Bytes} {d : Dialogue Unit α} {a : α} :
    Runs d said heard a → Runs (.send b d) (b ++ said) heard a
  | receive {b said heard : Bytes} {rest : Bytes → Dialogue Unit α} {a : α} :
    Runs (rest b) said heard a → Runs (.receive b.length rest) said (b ++ heard) a
  | consult {rest : Unit → Dialogue Unit α} {said heard : Bytes} {a : α} :
    Runs (rest ()) said heard a → Runs (.consult rest) said heard a
  | commit {s : Unit} {d : Dialogue Unit α} {said heard : Bytes} {a : α} :
    Runs d said heard a → Runs (.commit s d) said heard a

/-- The dialogue has heard these bytes and does not come to its end: it has failed, or it could not
send, or it waited in vain. -/
inductive Breaks : Dialogue Unit α → Bytes → Prop where
  | fail (e : WireError) : Breaks (.fail e) []
  | unsent {b : Bytes} {d : Dialogue Unit α} : Breaks (.send b d) []
  | send {b heard : Bytes} {d : Dialogue Unit α} : Breaks d heard → Breaks (.send b d) heard
  | unheard {n : Nat} {rest : Bytes → Dialogue Unit α} : Breaks (.receive n rest) []
  | receive {b heard : Bytes} {rest : Bytes → Dialogue Unit α} :
    Breaks (rest b) heard → Breaks (.receive b.length rest) (b ++ heard)
  | consult {rest : Unit → Dialogue Unit α} {heard : Bytes} :
    Breaks (rest ()) heard → Breaks (.consult rest) heard
  | commit {s : Unit} {d : Dialogue Unit α} {heard : Bytes} :
    Breaks d heard → Breaks (.commit s d) heard

theorem Reads.runs {d : Dialogue Unit α} {b : Bytes} {a : α} (h : Reads d b a) :
    Runs d [] b a := by
  induction h with
  | done a => exact .done a
  | receive _ ih => exact .receive ih

theorem runs_done {said heard : Bytes} {a a' : α} :
    Runs (.done a) said heard a' ↔ said = [] ∧ heard = [] ∧ a' = a := by
  constructor
  · intro h
    cases h
    exact ⟨rfl, rfl, rfl⟩
  · rintro ⟨rfl, rfl, rfl⟩
    exact .done a'

/-- **Two dialogues in a row say and hear their bytes in a row.** -/
theorem runs_bind {d : Dialogue Unit α} {k : α → Dialogue Unit β} {said heard : Bytes} {b : β} :
    Runs (d >>= k) said heard b ↔ ∃ a said₁ heard₁ said₂ heard₂,
      Runs d said₁ heard₁ a ∧ Runs (k a) said₂ heard₂ b
        ∧ said = said₁ ++ said₂ ∧ heard = heard₁ ++ heard₂ := by
  constructor
  · intro h
    change Runs (d.bind k) said heard b at h
    induction d generalizing said heard with
    | done a => exact ⟨a, [], [], said, heard, .done a, h, rfl, rfl⟩
    | fail e => cases h
    | send b' d ih =>
        cases h with
        | send h =>
            obtain ⟨a, said₁, heard₁, said₂, heard₂, hd, hk, rfl, rfl⟩ := ih h
            exact ⟨a, _, heard₁, said₂, heard₂, .send hd, hk, by rw [List.append_assoc], rfl⟩
    | receive n rest ih =>
        cases h with
        | receive h =>
            obtain ⟨a, said₁, heard₁, said₂, heard₂, hd, hk, rfl, rfl⟩ := ih _ h
            exact ⟨a, said₁, _, said₂, heard₂, .receive hd, hk, rfl, by rw [List.append_assoc]⟩
    | consult rest ih =>
        cases h with
        | consult h =>
            obtain ⟨a, said₁, heard₁, said₂, heard₂, hd, hk, hs, hh⟩ := ih _ h
            exact ⟨a, said₁, heard₁, said₂, heard₂, .consult hd, hk, hs, hh⟩
    | commit s d ih =>
        cases h with
        | commit h =>
            obtain ⟨a, said₁, heard₁, said₂, heard₂, hd, hk, hs, hh⟩ := ih h
            exact ⟨a, said₁, heard₁, said₂, heard₂, .commit hd, hk, hs, hh⟩
  · rintro ⟨a, said₁, heard₁, said₂, heard₂, hd, hk, rfl, rfl⟩
    show Runs (d.bind k) _ _ b
    induction hd with
    | done a => exact hk
    | send _ ih =>
        rw [List.append_assoc]
        exact .send (ih hk)
    | receive _ ih =>
        rw [List.append_assoc]
        exact .receive (ih hk)
    | consult _ ih => exact .consult (ih hk)
    | commit _ ih => exact .commit (ih hk)

/-- Two dialogues in a row break in the first or in the second. -/
theorem breaks_bind {d : Dialogue Unit α} {k : α → Dialogue Unit β} {heard : Bytes}
    (h : Breaks (d >>= k) heard) :
    Breaks d heard ∨ ∃ a said heard₁ heard₂,
      Runs d said heard₁ a ∧ Breaks (k a) heard₂ ∧ heard = heard₁ ++ heard₂ := by
  change Breaks (d.bind k) heard at h
  induction d generalizing heard with
  | done a => exact .inr ⟨a, [], [], heard, .done a, h, rfl⟩
  | fail e =>
      cases h with
      | fail => exact .inl (.fail e)
  | send b d ih =>
      cases h with
      | unsent => exact .inl .unsent
      | send h =>
          rcases ih h with h | ⟨a, said, heard₁, heard₂, hd, hk, rfl⟩
          · exact .inl (.send h)
          · exact .inr ⟨a, _, heard₁, heard₂, .send hd, hk, rfl⟩
  | receive n rest ih =>
      cases h with
      | unheard => exact .inl .unheard
      | receive h =>
          rcases ih _ h with h | ⟨a, said, heard₁, heard₂, hd, hk, rfl⟩
          · exact .inl (.receive h)
          · exact .inr ⟨a, said, _, heard₂, .receive hd, hk, by rw [List.append_assoc]⟩
  | consult rest ih =>
      cases h with
      | consult h =>
          rcases ih _ h with h | ⟨a, said, heard₁, heard₂, hd, hk, rfl⟩
          · exact .inl (.consult h)
          · exact .inr ⟨a, said, heard₁, heard₂, .consult hd, hk, rfl⟩
  | commit s d ih =>
      cases h with
      | commit h =>
          rcases ih h with h | ⟨a, said, heard₁, heard₂, hd, hk, rfl⟩
          · exact .inl (.commit h)
          · exact .inr ⟨a, said, heard₁, heard₂, .commit hd, hk, rfl⟩

theorem runs_say {b said heard : Bytes} {u : Unit} :
    Runs (say b) said heard u ↔ said = b ∧ heard = [] := by
  constructor
  · intro h
    cases h with
    | send h =>
        cases h
        exact ⟨List.append_nil b, rfl⟩
  · rintro ⟨rfl, rfl⟩
    have h := Runs.send (b := said) (.done ())
    rwa [List.append_nil] at h

theorem runs_take {n : Nat} {said heard b : Bytes} :
    Runs (take n) said heard b ↔ said = [] ∧ heard = b ∧ b.length = n := by
  constructor
  · intro h
    cases h with
    | receive h =>
        cases h
        exact ⟨rfl, List.append_nil b, rfl⟩
  · rintro ⟨rfl, rfl, hlen⟩
    exact (Reads.take_of_length hlen).runs

theorem runs_map {f : α → β} {d : Dialogue Unit α} {said heard : Bytes} {b : β} :
    Runs (do return f (← d)) said heard b ↔ ∃ a, Runs d said heard a ∧ b = f a := by
  constructor
  · intro h
    obtain ⟨a, said₁, heard₁, _, _, hd, hk, rfl, rfl⟩ := runs_bind.mp h
    obtain ⟨rfl, rfl, hb⟩ := runs_done.mp hk
    refine ⟨a, ?_, hb⟩
    rwa [List.append_nil, List.append_nil]
  · rintro ⟨a, hd, rfl⟩
    exact runs_bind.mpr ⟨a, said, heard, [], [], hd, .done _, (List.append_nil _).symm,
      (List.append_nil _).symm⟩

/-- What this reader gives, it has heard in this form, and it says nothing. -/
def Hears (d : Dialogue Unit α) (form : α → Bytes) : Prop :=
  ∀ said heard a, Runs d said heard a → said = [] ∧ heard = form a

/-- What follows a reader hears what comes after the form. -/
theorem Hears.next {d : Dialogue Unit α} {form : α → Bytes} (hd : Hears d form)
    {k : α → Dialogue Unit β} {said heard : Bytes} {b : β} (h : Runs (d >>= k) said heard b) :
    ∃ a later, Runs (k a) said later b ∧ heard = form a ++ later := by
  obtain ⟨a, said₁, heard₁, said₂, heard₂, h₁, h₂, rfl, rfl⟩ := runs_bind.mp h
  obtain ⟨rfl, rfl⟩ := hd _ _ _ h₁
  exact ⟨a, heard₂, h₂, rfl⟩

end Dialogue

namespace Wire

open Dialogue

/-! ## Fields of fixed width -/

/-- A number of a fixed width is heard in its form. -/
theorem hears_number {α : Type} {width : Nat} {ofNumber : Nat → α} {toNumber : α → Nat}
    (h : ∀ n, n < 256 ^ width → toNumber (ofNumber n) = n) :
    Hears (do return ofNumber (Bytes.toNat (← .take width)))
      fun a => Bytes.ofNat width (toNumber a) := by
  intro said heard a hruns
  obtain ⟨b, htake, rfl⟩ := runs_map.mp hruns
  obtain ⟨rfl, rfl, rfl⟩ := runs_take.mp htake
  refine ⟨rfl, ?_⟩
  dsimp only
  rw [h _ (Bytes.toNat_lt heard), Bytes.ofNat_toNat]

theorem hears_size : Hears readSize ofSize :=
  hears_number fun _ hn => UInt64.toNat_ofNat_of_lt' hn

theorem hears_mask : Hears readMask ofMask :=
  hears_number fun _ hn => UInt32.toNat_ofNat_of_lt' hn

theorem hears_word : Hears readWord fun word => Bytes.ofNat 2 word.toNat :=
  hears_number fun _ hn => UInt16.toNat_ofNat_of_lt' hn

theorem hears_code : Hears readCode ofCode := by
  intro said heard code h
  obtain ⟨size, hsize, rfl⟩ := runs_map.mp h
  obtain ⟨rfl, rfl⟩ := hears_size _ _ _ hsize
  refine ⟨rfl, ?_⟩
  rw [ofCode, ofSize, UInt64.toUInt64_toInt64]

theorem hears_command : Hears readCommand ofCommand := by
  intro said heard command h
  obtain ⟨word, later, hk, rfl⟩ := hears_word.next h
  split at hk
  · next found hfound =>
    obtain ⟨rfl, rfl, rfl⟩ := runs_done.mp hk
    rw [Command.ofWord?_eq_some_iff.mp hfound, List.append_nil]
    exact ⟨rfl, rfl⟩
  · cases hk

theorem hears_stat : Hears readStat ofStat := by
  intro said heard stat h
  obtain ⟨dev, _, hdev, rfl⟩ := hears_size.next h
  obtain ⟨mode, _, hmode, rfl⟩ := hears_mask.next hdev
  obtain ⟨size, _, hsize, rfl⟩ := hears_size.next hmode
  obtain ⟨atime, _, hatime, rfl⟩ := hears_code.next hsize
  obtain ⟨mtime, _, hmtime, rfl⟩ := hears_code.next hatime
  obtain ⟨ctime, _, hctime, rfl⟩ := hears_code.next hmtime
  obtain ⟨rfl, rfl, rfl⟩ := runs_done.mp hctime
  simp only [ofStat, List.append_assoc, List.append_nil, true_and]

/-! ## Fields with a length -/

variable {said heard : Bytes}

theorem runs_readBlock {length limit : UInt64} {block : Bytes}
    (h : Runs (readBlock length limit) said heard block) :
    said = [] ∧ heard = block ∧ block.length = length.toNat ∧ length ≤ limit := by
  rw [readBlock] at h
  split at h
  · cases h
  · next hle =>
    obtain ⟨rfl, rfl, hlen⟩ := runs_take.mp h
    exact ⟨rfl, rfl, hlen, UInt64.not_lt.mp hle⟩

theorem runs_readText {limit : UInt64} {text : String}
    (h : Runs (readText limit) said heard text) :
    said = [] ∧ heard = ofText text ∧ (Utf8.encode text).length ≤ limit.toNat := by
  obtain ⟨length, _, hrest, rfl⟩ := hears_size.next h
  split at hrest
  · cases hrest
  · obtain ⟨block, _, _, _, _, hblock, hutf, rfl, rfl⟩ := runs_bind.mp hrest
    obtain ⟨rfl, rfl, hlen, hle⟩ := runs_readBlock hblock
    rw [ofUtf8] at hutf
    split at hutf
    · next text' hdecode =>
      obtain ⟨rfl, rfl, rfl⟩ := runs_done.mp hutf
      have hform := Utf8.eq_encode_of_decode hdecode
      rw [hform] at hlen ⊢
      refine ⟨rfl, ?_, ?_⟩
      · rw [ofText, hlen, UInt64.ofNat_toNat, List.append_nil]
      · rw [hlen]
        exact UInt64.le_iff_toNat_le.mp hle
    · cases hutf

theorem runs_readEntry {limit : UInt64} {entry : Entry}
    (h : Runs (readEntry limit) said heard entry) :
    said = [] ∧ heard = ofEntry entry ∧ (Utf8.encode entry.name).length ≤ limit.toNat := by
  obtain ⟨name, _, _, _, _, hname, hstat, rfl, rfl⟩ := runs_bind.mp h
  obtain ⟨rfl, rfl, hle⟩ := runs_readText hname
  obtain ⟨stat, _, hdone, rfl⟩ := hears_stat.next hstat
  obtain ⟨rfl, rfl, rfl⟩ := runs_done.mp hdone
  refine ⟨rfl, ?_, hle⟩
  rw [ofEntry, List.append_nil]

theorem runs_readEntries {limit : UInt64} {count : Nat} {entries : List Entry}
    (h : Runs (readEntries limit count) said heard entries) :
    said = [] ∧ heard = entries.flatMap ofEntry ∧ entries.length = count
      ∧ ∀ e ∈ entries, (Utf8.encode e.name).length ≤ limit.toNat := by
  induction count generalizing said heard entries with
  | zero =>
      obtain ⟨rfl, rfl, rfl⟩ := runs_done.mp h
      exact ⟨rfl, rfl, rfl, nofun⟩
  | succ count ih =>
      obtain ⟨entry, _, _, _, _, hentry, hmore, rfl, rfl⟩ := runs_bind.mp h
      obtain ⟨rfl, rfl, hname⟩ := runs_readEntry hentry
      obtain ⟨rest, hrest, rfl⟩ := runs_map.mp hmore
      obtain ⟨rfl, rfl, rfl, hnames⟩ := ih hrest
      refine ⟨rfl, rfl, rfl, ?_⟩
      intro e he
      rcases List.mem_cons.mp he with rfl | he
      · exact hname
      · exact hnames e he

end Wire
end UnionFS
