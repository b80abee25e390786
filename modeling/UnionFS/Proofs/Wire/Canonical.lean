import UnionFS.Proofs.Wire.RoundTrip
import UnionFS.Proofs.Wire.Runs

/-!
# One form for each value

What the readers make of bytes that nobody may have written.  A reader that comes to a value has
taken that value's written form and nothing else (`read_eq_ok_iff`): so a value has one form, and
every other input is refused.  A form that is cut off ends in `closed` (`Reads.runOn_part`), and a
text that is announced as too long is refused after its length (`feed_readText_of_lt`).

Only the token of a key is read more freely, since nothing behind its first zero counts; it is left
out here.
-/

namespace UnionFS

namespace Dialogue

variable {σ α : Type}

/-! ## Running to the end of the input -/

theorem runOn_send (b : Bytes) (d : Dialogue σ α) (input : Bytes) (s : σ) :
    (send b d).runOn input s =
      { d.runOn input s with sent := b ++ (d.runOn input s).sent } := by
  rw [runOn, runOn, feed, Progress.close, Progress.close]
  dsimp only
  split
  all_goals rfl

theorem runOn_receive_of_le {n : Nat} {input : Bytes} (h : n ≤ input.length)
    (d : Bytes → Dialogue σ α) (s : σ) :
    (receive n d).runOn input s = (d (input.take n)).runOn (input.drop n) s := by
  rw [runOn, feed, if_pos h, runOn]

theorem runOn_receive_of_lt {n : Nat} {input : Bytes} (h : input.length < n)
    (d : Bytes → Dialogue σ α) (s : σ) :
    (receive n d).runOn input s = ⟨.error .closed, [], [], s⟩ := by
  rw [runOn, feed, if_neg (Nat.not_le.mpr h)]
  rfl

/-- **A dialogue that ends in a value has heard the front of its input**, and the rest is left. -/
theorem runs_of_runOn {d : Dialogue Unit α} {input : Bytes} {a : α}
    (h : (d.runOn input ()).result = .ok a) :
    ∃ heard, Runs d (d.runOn input ()).sent heard a
      ∧ input = heard ++ (d.runOn input ()).unread := by
  induction d generalizing input with
  | done a' =>
      obtain rfl : a' = a := Except.ok.inj h
      exact ⟨[], .done a', rfl⟩
  | fail error => cases h
  | send b d ih =>
      rw [runOn_send] at h ⊢
      obtain ⟨heard, hruns, hinput⟩ := ih h
      exact ⟨heard, .send hruns, hinput⟩
  | receive n rest ih =>
      rcases Nat.lt_or_ge input.length n with hlt | hle
      · rw [runOn_receive_of_lt hlt] at h
        cases h
      · rw [runOn_receive_of_le hle] at h ⊢
        obtain ⟨heard, hruns, hinput⟩ := ih _ h
        have hfirst := Runs.receive hruns
        rw [List.length_take_of_le hle] at hfirst
        refine ⟨input.take n ++ heard, hfirst, ?_⟩
        rw [List.append_assoc, ← hinput, List.take_append_drop]
  | consult rest ih =>
      obtain ⟨heard, hruns, hinput⟩ := ih () h
      exact ⟨heard, .consult hruns, hinput⟩
  | commit s d ih =>
      obtain ⟨heard, hruns, hinput⟩ := ih h
      exact ⟨heard, .commit hruns, hinput⟩

/-- **A reader whose bytes are cut off finds the stream closed.** -/
theorem Reads.runOn_part {d : Dialogue σ α} {b : Bytes} {a : α} (h : Reads d b a) {part : Bytes}
    (hpart : part <+: b) (hlen : part.length < b.length) (s : σ) :
    d.runOn part s = ⟨.error .closed, [], [], s⟩ := by
  induction h generalizing part with
  | done a => exact absurd hlen (Nat.not_lt_zero _)
  | @receive rest b b' a _ ih =>
      rcases Nat.lt_or_ge part.length b.length with hlt | hle
      · exact runOn_receive_of_lt hlt rest s
      · -- the first field is there, so that the cut is in a later one
        obtain ⟨later, rfl⟩ := List.prefix_of_prefix_length_le (List.prefix_append b b') hpart hle
        rw [runOn_receive_of_le hle, List.take_left, List.drop_left]
        rw [List.prefix_append_right_inj] at hpart
        simp only [List.length_append] at hlen
        exact ih hpart (by omega)

end Dialogue

namespace Wire

open Dialogue

variable {kind : Kind} {said heard input : Bytes} {d : Datum}

/-! ## Fields -/

/-- What a reader other than that of keys has heard is the form of what it gives. -/
theorem runs_read (hkey : kind ≠ .key) (h : Runs kind.read said heard d) :
    heard = d.bytes ∧ d.Fits kind := by
  cases kind with
  | key => exact absurd rfl hkey
  | command =>
      obtain ⟨c, hc, rfl⟩ := runs_map.mp h
      exact ⟨(hears_command _ _ _ hc).2, .command c⟩
  | code =>
      obtain ⟨c, hc, rfl⟩ := runs_map.mp h
      exact ⟨(hears_code _ _ _ hc).2, .code c⟩
  | size =>
      obtain ⟨n, hn, rfl⟩ := runs_map.mp h
      exact ⟨(hears_size _ _ _ hn).2, .size n⟩
  | mask =>
      obtain ⟨m, hm, rfl⟩ := runs_map.mp h
      exact ⟨(hears_mask _ _ _ hm).2, .mask m⟩
  | text limit =>
      obtain ⟨t, ht, rfl⟩ := runs_map.mp h
      obtain ⟨-, hform, hlen⟩ := runs_readText ht
      exact ⟨hform, .text hlen⟩
  | stat =>
      obtain ⟨s, hs, rfl⟩ := runs_map.mp h
      exact ⟨(hears_stat _ _ _ hs).2, .stat s⟩
  | block length limit =>
      obtain ⟨b, hb, rfl⟩ := runs_map.mp h
      obtain ⟨-, hform, hlen, hle⟩ := runs_readBlock hb
      exact ⟨hform, .block hlen hle⟩

/-- **A value is read exactly from its written form.** -/
theorem read_eq_ok_iff (hkey : kind ≠ .key) :
    (kind.read.runOn input ()).result = .ok d ↔
      d.Fits kind ∧ input = d.bytes ++ (kind.read.runOn input ()).unread := by
  constructor
  · intro h
    obtain ⟨heard, hruns, hinput⟩ := runs_of_runOn h
    obtain ⟨rfl, hfits⟩ := runs_read hkey hruns
    exact ⟨hfits, hinput⟩
  · rintro ⟨hfits, hinput⟩
    rw [hinput, hfits.reads.runOn]

/-- Nothing behind the length of a text that is too long is read. -/
theorem feed_readText_of_lt {σ : Type} {length limit : UInt64} (h : limit < length) (rest : Bytes)
    (s : σ) : (readText limit).feed (ofSize length ++ rest) s =
      ⟨.fail (.lengthExceeded .name length limit), [], rest, s⟩ := by
  rw [readText, (reads_size length).feed_bind, if_pos h]
  rfl

theorem runOn_text_of_lt {length limit : UInt64} (h : limit < length) (rest : Bytes) :
    (Kind.text limit).read.runOn (ofSize length ++ rest) () =
      ⟨.error (.lengthExceeded .name length limit), [], rest, ()⟩ := by
  have hread : (Kind.text limit).read (σ := Unit) =
      (readText limit).bind fun t => .done (.text t) := rfl
  rw [runOn, hread, feed_bind, feed_readText_of_lt h]
  rfl

/-- **Each value has one form.**  Whatever the bytes, a reader that gives a value has taken the
form of that value; where the form is cut off, it finds the stream closed; and it refuses a text
that is too long after the eight bytes of its length. -/
theorem canonical (hkey : kind ≠ .key) :
    (∀ (input : Bytes) (d : Datum), (kind.read.runOn input ()).result = .ok d ↔
        d.Fits kind ∧ input = d.bytes ++ (kind.read.runOn input ()).unread)
      ∧ (∀ (d : Datum) (part : Bytes), d.Fits kind → part <+: d.bytes → part ≠ d.bytes →
        kind.read.runOn part () = ⟨.error .closed, [], [], ()⟩)
      ∧ ∀ (limit length : UInt64) (rest : Bytes), limit < length →
        (ofSize length).length = 8
          ∧ (Kind.text limit).read.runOn (ofSize length ++ rest) () =
            ⟨.error (.lengthExceeded .name length limit), [], rest, ()⟩ := by
  refine ⟨fun input d => read_eq_ok_iff hkey, ?_, ?_⟩
  · intro d part hfits hpart hne
    have hlt : part.length < d.bytes.length :=
      Nat.lt_of_le_of_ne hpart.length_le fun hlen => hne (hpart.eq_of_length hlen)
    exact hfits.reads.runOn_part hpart hlt ()
  · intro limit length rest hlt
    exact ⟨Bytes.length_ofNat .., runOn_text_of_lt hlt rest⟩

/-- A text of two bytes, whole, cut in its length and cut behind it, and one of three where two are
the limit. -/
theorem canonical_sample :
    Kind.text 2 ≠ .key
      ∧ ((Kind.text 2).read.runOn [0, 0, 0, 0, 0, 0, 0, 2, 97, 98, 255] ()).result =
        .ok (.text "ab")
      ∧ (Kind.text 2).read.runOn [0, 0, 0, 0, 0] () = ⟨.error .closed, [], [], ()⟩
      ∧ (Kind.text 2).read.runOn [0, 0, 0, 0, 0, 0, 0, 2, 97] () = ⟨.error .closed, [], [], ()⟩
      ∧ (Kind.text 2).read.runOn [0, 0, 0, 0, 0, 0, 0, 3, 97] () =
        ⟨.error (.lengthExceeded .name 3 2), [], [97], ()⟩ := by
  have hkey : Kind.text 2 ≠ .key := nofun
  have hfits : (Datum.text "ab").Fits (.text 2) := .text (by decide)
  obtain ⟨hread, hcut, hlong⟩ := canonical hkey
  refine ⟨hkey, ?_, hcut _ _ hfits (by decide) (by decide), hcut _ _ hfits (by decide) (by decide),
    (hlong 2 3 [97] (by decide)).2⟩
  refine (hread _ _).mpr ⟨hfits, ?_⟩
  rw [show ([0, 0, 0, 0, 0, 0, 0, 2, 97, 98, 255] : Bytes) = (Datum.text "ab").bytes ++ [255] by
    decide, hfits.reads.runOn]

end Wire
end UnionFS
