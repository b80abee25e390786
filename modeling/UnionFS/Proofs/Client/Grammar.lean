import UnionFS.Proofs.Client.Replies
import UnionFS.Proofs.Wire.Runs
import UnionFS.Wire.Handshake

/-!
# The grammar of exchanges

What a client says in an exchange, and what counts as a complete reply to it: stated once, without
regard to how the client reads it (`Complete`).  An exchange that comes to its end has taken one
complete reply and no byte more (`complete_of_runs`).  One that does not has not been refused: the
code of a refusal is the last thing that is waited for (`not_refused_of_breaks`).
-/

namespace UnionFS.Client

open Dialogue Wire

/-- For this request these bytes are said, and those are a complete reply, which tells this. -/
inductive Complete (limits : Limits) : (r : Request) → (said heard : Bytes) → Outcome r.Answer →
    Prop where
  | refused {r : Request} {c : Code} :
    c < 0 → Complete limits r (opening r) (ofCode c) (.error c)
  | stat {path : String} {c : Code} (stat : Stat) :
    ¬ c < 0 →
    Complete limits (.getattr path) (opening (.getattr path)) (ofCode c ++ ofStat stat) (.ok stat)
  | access {path : String} {mask : UInt32} {c : Code} :
    ¬ c < 0 →
    Complete limits (.access path mask) (opening (.access path mask)) (ofCode c) (.ok ())
  | openFile {path : String} {flags : UInt32} {c : Code} :
    ¬ c < 0 →
    Complete limits (.openFile path flags) (opening (.openFile path flags)) (ofCode c) (.ok ())
  | entries {path : String} {c : Code} {entries : List Entry} :
    ¬ c < 0 → entries.length ≤ limits.maxEntries.toNat →
    (∀ e ∈ entries, (Utf8.encode e.name).length ≤ limits.maxPath.toNat) →
    Complete limits (.readdir path) (opening (.readdir path))
      (ofCode c ++ (ofSize (UInt64.ofNat entries.length) ++ entries.flatMap ofEntry)) (.ok entries)
  | data {path : String} {size offset : UInt64} {c : Code} {data : Bytes} :
    ¬ c < 0 → data.length ≤ size.toNat →
    Complete limits (.read path size offset) (opening (.read path size offset))
      (ofCode c ++ (ofSize (UInt64.ofNat data.length) ++ data)) (.ok data)
  /-- The file was opened, and the data could not be written to it. -/
  | unwritten {path : String} {data : Bytes} {offset : UInt64} {first c : Code} :
    ¬ first < 0 → c < 0 →
    Complete limits (.write path data offset) (opening (.write path data offset) ++ data)
      (ofCode first ++ ofCode c) (.error c)
  | written {path : String} {data : Bytes} {offset : UInt64} {first second : Code}
    (count : UInt64) :
    ¬ first < 0 → ¬ second < 0 →
    Complete limits (.write path data offset) (opening (.write path data offset) ++ data)
      (ofCode first ++ (ofCode second ++ ofSize count)) (.ok count)

variable {α : Type} {limits : Limits} {r : Request} {said heard : Bytes}

/-! ## An exchange that comes to its end -/

theorem runs_unlessRefused {next : Dialogue Unit α} {o : Outcome α}
    (h : Runs (unlessRefused next) said heard o) :
    (∃ c, c < 0 ∧ said = [] ∧ heard = ofCode c ∧ o = .error c) ∨
      ∃ c later a, ¬ c < 0 ∧ Runs next said later a ∧ heard = ofCode c ++ later ∧ o = .ok a := by
  obtain ⟨c, later, hk, rfl⟩ := hears_code.next h
  split at hk
  · next hc =>
    obtain ⟨rfl, rfl, rfl⟩ := runs_done.mp hk
    exact .inl ⟨c, hc, rfl, List.append_nil _, rfl⟩
  · next hc =>
    obtain ⟨a, ha, rfl⟩ := runs_map.mp hk
    exact .inr ⟨c, later, a, hc, ha, rfl, rfl⟩

/-- A reply that is refused or accepted as a whole is complete if what comes after an acceptance
is. -/
theorem complete_of_unlessRefused {next : Dialogue Unit r.Answer} {o : Outcome r.Answer}
    (haccepted : ∀ c said heard a, ¬ c < 0 → Runs next said heard a →
      Complete limits r (opening r ++ said) (ofCode c ++ heard) (.ok a))
    (h : Runs (unlessRefused next) said heard o) :
    Complete limits r (opening r ++ said) heard o := by
  rcases runs_unlessRefused h with ⟨c, hc, rfl, rfl, rfl⟩ | ⟨c, later, a, hc, ha, rfl, rfl⟩
  · rw [List.append_nil]
    exact .refused hc
  · exact haccepted c said later a hc ha

/-- A write has two replies, and the second only if the first accepts it. -/
theorem complete_of_write {path : String} {data : Bytes} {offset : UInt64}
    {o : Outcome UInt64} (h : Runs (readReply limits (.write path data offset)) said heard o) :
    Complete limits (.write path data offset) (opening (.write path data offset) ++ said) heard
      o := by
  obtain ⟨opened, _, _, _, _, hfirst, hrest, rfl, rfl⟩ := runs_bind.mp h
  rcases runs_unlessRefused hfirst with ⟨c, hc, rfl, rfl, rfl⟩ | ⟨c, later, a, hc, ha, rfl, rfl⟩
  · obtain ⟨rfl, rfl, rfl⟩ := runs_done.mp hrest
    rw [List.append_nil, List.append_nil]
    have hrefused : Complete limits (.write path data offset) (opening _) (ofCode c) (.error c) :=
      .refused hc
    exact hrefused
  · obtain ⟨rfl, rfl⟩ := runs_say.mp ha
    rcases runs_unlessRefused hrest with
      ⟨c', hc', rfl, rfl, rfl⟩ | ⟨c', later, count, hc', hcount, rfl, rfl⟩
    · rw [List.append_nil, List.append_nil]
      exact .unwritten hc hc'
    · obtain ⟨rfl, rfl⟩ := hears_size _ _ _ hcount
      rw [List.append_nil, List.append_nil]
      exact .written count hc hc'

theorem complete_of_readReply {o : Outcome r.Answer} (h : Runs (readReply limits r) said heard o) :
    Complete limits r (opening r ++ said) heard o := by
  cases r with
  | getattr path =>
      refine complete_of_unlessRefused (fun c said heard stat hc hstat => ?_) h
      obtain ⟨rfl, hform⟩ := hears_stat _ _ _ hstat
      rw [List.append_nil, hform]
      exact .stat stat hc
  | access path mask =>
      refine complete_of_unlessRefused (fun c said heard a hc ha => ?_) h
      obtain ⟨rfl, rfl, rfl⟩ := runs_done.mp ha
      rw [List.append_nil, List.append_nil]
      exact .access hc
  | openFile path flags =>
      refine complete_of_unlessRefused (fun c said heard a hc ha => ?_) h
      obtain ⟨rfl, rfl, rfl⟩ := runs_done.mp ha
      rw [List.append_nil, List.append_nil]
      exact .openFile hc
  | readdir path =>
      refine complete_of_unlessRefused (fun c said heard entries hc hentries => ?_) h
      obtain ⟨count, later, hcount, rfl⟩ := hears_size.next hentries
      split at hcount
      · cases hcount
      · next hle =>
        obtain ⟨rfl, rfl, hlen, hnames⟩ := runs_readEntries hcount
        have hmax := UInt64.le_iff_toNat_le.mp (UInt64.not_lt.mp hle)
        rw [← hlen] at hmax
        rw [List.append_nil, ← UInt64.ofNat_toNat (x := count), ← hlen]
        exact .entries hc hmax hnames
  | read path size offset =>
      refine complete_of_unlessRefused (fun c said heard data hc hdata => ?_) h
      obtain ⟨count, later, hblock, rfl⟩ := hears_size.next hdata
      obtain ⟨rfl, rfl, hlen, hle⟩ := runs_readBlock hblock
      have hmax := UInt64.le_iff_toNat_le.mp hle
      rw [← hlen] at hmax
      rw [List.append_nil, ← UInt64.ofNat_toNat (x := count), ← hlen]
      exact .data hc hmax
  | write path data offset =>
      exact complete_of_write h

/-- **An exchange that comes to its end has taken exactly one complete reply**, whatever was sent to
it. -/
theorem complete_of_runs {o : Outcome r.Answer} (h : Runs (exchange limits r) said heard o) :
    Complete limits r said heard o := by
  obtain ⟨_, _, _, _, _, hsay, hreply, rfl, rfl⟩ := runs_bind.mp h
  obtain ⟨rfl, rfl⟩ := runs_say.mp hsay
  exact complete_of_readReply hreply

/-- A heartbeat is answered by a heartbeat. -/
theorem beat_of_runs {u : Unit} (h : Runs heartbeat said heard u) :
    said = ofCommand .heartbeat ∧ heard = ofCommand .heartbeat := by
  obtain ⟨_, _, _, _, _, hsay, hreply, rfl, rfl⟩ := runs_bind.mp h
  obtain ⟨rfl, rfl⟩ := runs_say.mp hsay
  obtain ⟨command, later, hdone, rfl⟩ := hears_command.next hreply
  split at hdone
  · obtain ⟨rfl, rfl, -⟩ := runs_done.mp hdone
    exact ⟨List.append_nil _, List.append_nil _⟩
  · cases hdone

/-- A key is accepted by the command that says so. -/
theorem accepted_of_runs {key : String} (h : Runs (shakeHands key) said heard .accepted) :
    said = ofKey key ∧ heard = ofCommand .accept := by
  obtain ⟨_, _, _, _, _, hsay, hreply, rfl, rfl⟩ := runs_bind.mp h
  obtain ⟨rfl, rfl⟩ := runs_say.mp hsay
  obtain ⟨word, later, hdone, rfl⟩ := hears_word.next hreply
  split at hdone
  · next reply hword =>
    obtain ⟨rfl, rfl, houtcome⟩ := runs_done.mp hdone
    have hreply : reply = .accept := by
      cases reply with
      | accept => rfl
      | _ => cases houtcome
    subst hreply
    rw [Command.ofWord?_eq_some_iff.mp hword]
    exact ⟨List.append_nil _, List.append_nil _⟩
  · obtain ⟨-, -, houtcome⟩ := runs_done.mp hdone
    cases houtcome

/-! ## An exchange that does not -/

theorem breaks_say {b : Bytes} (h : Breaks (say b) heard) : heard = [] := by
  cases h with
  | unsent => rfl
  | send h => cases h

theorem breaks_take {n : Nat} (h : Breaks (take n) heard) : heard = [] := by
  cases h with
  | unheard => rfl
  | receive h => cases h

theorem breaks_map {β : Type} {f : α → β} {d : Dialogue Unit α}
    (h : Breaks (do return f (← d)) heard) : Breaks d heard := by
  rcases breaks_bind h with h | ⟨a, said, _, _, -, h, -⟩
  · exact h
  · cases h

theorem breaks_readCode (h : Breaks readCode heard) : heard = [] :=
  breaks_take (breaks_map (breaks_map h))

/-- Where a reply breaks off, nothing has been heard or a code that is no refusal. -/
theorem breaks_unlessRefused {next : Dialogue Unit α} (h : Breaks (unlessRefused next) heard) :
    heard = [] ∨ ∃ c later, ¬ c < 0 ∧ Breaks next later ∧ heard = ofCode c ++ later := by
  rcases breaks_bind h with h | ⟨c, said, heard₁, later, hcode, hk, rfl⟩
  · exact .inl (breaks_readCode h)
  · obtain ⟨-, rfl⟩ := hears_code _ _ _ hcode
    split at hk
    · cases hk
    · next hc => exact .inr ⟨c, later, hc, breaks_map hk, rfl⟩

theorem ofCode_ne_nil (c : Code) (b : Bytes) : ofCode c ++ b ≠ [] := by
  intro h
  have hlen := congrArg List.length h
  rw [List.length_append, ofCode, Bytes.length_ofNat, List.length_nil] at hlen
  omega

/-- A refusal is a negative code, or for a write one that follows a code that is not negative. -/
theorem Complete.of_refused {c : Code} (h : Complete limits r said heard (.error c)) :
    c < 0 ∧ (heard = ofCode c ∨ ∃ path data offset first, r = .write path data offset
      ∧ ¬ first < 0 ∧ heard = ofCode first ++ ofCode c) := by
  cases h with
  | refused hc => exact ⟨hc, .inl rfl⟩
  | unwritten hfirst hc => exact ⟨hc, .inr ⟨_, _, _, _, rfl, hfirst, rfl⟩⟩

/-- What a reply that breaks off starts with is no refusal. -/
theorem ne_ofCode_of_breaks {next : Dialogue Unit α} (h : Breaks (unlessRefused next) heard)
    {c : Code} (hc : c < 0) : heard ≠ ofCode c := by
  intro heq
  rw [← List.append_nil (ofCode c)] at heq
  rcases breaks_unlessRefused h with rfl | ⟨first, later, hfirst, -, rfl⟩
  · exact ofCode_ne_nil _ _ heq.symm
  · obtain ⟨rfl, -⟩ := ofCode_append_inj heq
    exact hfirst hc

/-- Nor is what follows the opening of a write whose second reply breaks off. -/
theorem write_ne_refused_of_breaks {path : String} {data : Bytes} {offset : UInt64}
    (h : Breaks (readReply limits (.write path data offset)) heard) {c : Code} (hc : c < 0) :
    heard ≠ ofCode c ∧ ∀ first, heard ≠ ofCode first ++ ofCode c := by
  rcases breaks_bind h with h | ⟨opened, said, heard₁, heard₂, hfirst, hk, rfl⟩
  · refine ⟨ne_ofCode_of_breaks h hc, fun first heq => ?_⟩
    rcases breaks_unlessRefused h with rfl | ⟨c', later, -, hsay, rfl⟩
    · exact ofCode_ne_nil _ _ heq.symm
    · -- the data could not be sent, so that only the first code was heard
      obtain rfl := breaks_say hsay
      obtain ⟨-, hnil⟩ := ofCode_append_inj heq
      rw [← List.append_nil (ofCode c)] at hnil
      exact ofCode_ne_nil _ _ hnil.symm
  · rcases runs_unlessRefused hfirst with ⟨c', -, -, -, rfl⟩ | ⟨c', later, a, hc', ha, rfl, rfl⟩
    · cases hk
    · obtain ⟨-, rfl⟩ := runs_say.mp ha
      rw [List.append_nil]
      constructor
      · intro heq
        rw [← List.append_nil (ofCode c)] at heq
        obtain ⟨rfl, -⟩ := ofCode_append_inj heq
        exact hc' hc
      · intro first heq
        obtain ⟨-, hsecond⟩ := ofCode_append_inj heq
        exact ne_ofCode_of_breaks hk hc hsecond

/-- **An exchange that does not come to its end has not been refused.** -/
theorem not_refused_of_breaks (h : Breaks (exchange limits r) heard) (said : Bytes) (c : Code) :
    ¬ Complete limits r said heard (.error c) := by
  intro hcomplete
  obtain ⟨hc, hrefused⟩ := hcomplete.of_refused
  rcases breaks_bind h with h | ⟨_, _, _, later, hsay, hreply, rfl⟩
  · obtain rfl := breaks_say h
    rcases hrefused with h | ⟨_, _, _, first, -, -, h⟩
    · rw [← List.append_nil (ofCode c)] at h
      exact ofCode_ne_nil _ _ h.symm
    · exact ofCode_ne_nil _ _ h.symm
  obtain ⟨-, rfl⟩ := runs_say.mp hsay
  rw [List.nil_append] at hrefused
  cases r with
  | write path data offset =>
      obtain ⟨hone, htwo⟩ := write_ne_refused_of_breaks hreply hc
      rcases hrefused with h | ⟨_, _, _, first, -, -, h⟩
      · exact hone h
      · exact htwo first h
  | _ =>
      rcases hrefused with h | ⟨_, _, _, _, hr, -, -⟩
      · exact ne_ofCode_of_breaks hreply hc h
      · cases hr

end UnionFS.Client
