import UnionFS.Text.Blank

/-!
# Words and what stands around them

`Spaced p words text` says that a text is made of these words, with separators between them and
perhaps around them, and nothing else.  Every text is made of its words (`spaced_words`) and of no
others (`Spaced.words_eq`), so that any separators will do: those before, between and after the
words can be other ones, and more of them.  Trimming takes blanks off both ends, and no more
(`trim_eq`, `head?_trim`).
-/

namespace UnionFS.Text

variable {α : Type} {p : α → Bool} {gap word text rest : List α} {ws : List (List α)}

/-! ## Words -/

/-- The text is made of these words and of separators, of which some stand between any two. -/
inductive Spaced (p : α → Bool) : List (List α) → List α → Prop where
  | gap {gap : List α} : (∀ c ∈ gap, p c = true) → Spaced p [] gap
  | word {gap word rest : List α} {ws : List (List α)} :
    (∀ c ∈ gap, p c = true) → word ≠ [] → (∀ c ∈ word, p c = false) →
    (∀ c, rest.head? = some c → p c = true) → Spaced p ws rest →
    Spaced p (word :: ws) (gap ++ word ++ rest)

/-- A separator ends a word. -/
theorem words_append {c : α} (h : p c = true) (a b : List α) :
    words p (a ++ c :: b) = words p a ++ words p b := by
  rw [words, pieces_append h, List.filter_append]
  rfl

theorem words_cons {c : α} (h : p c = true) (rest : List α) : words p (c :: rest) = words p rest :=
  words_append h [] rest

theorem words_gap_append (h : ∀ c ∈ gap, p c = true) (rest : List α) :
    words p (gap ++ rest) = words p rest := by
  induction gap with
  | nil => rfl
  | cons c gap ih =>
    obtain ⟨hc, hgap⟩ := List.forall_mem_cons.mp h
    rw [List.cons_append, words_cons hc, ih hgap]

theorem words_of_gap (h : ∀ c ∈ gap, p c = true) : words p gap = [] := by
  have hall := words_gap_append h []
  rwa [List.append_nil] at hall

theorem words_append_gap (h : ∀ c ∈ gap, p c = true) (text : List α) :
    words p (text ++ gap) = words p text := by
  cases gap with
  | nil => rw [List.append_nil]
  | cons c gap =>
    obtain ⟨hc, hgap⟩ := List.forall_mem_cons.mp h
    rw [words_append hc, words_of_gap hgap, List.append_nil]

theorem words_of_word (hne : word ≠ []) (h : ∀ c ∈ word, p c = false) : words p word = [word] := by
  rw [words, pieces_of_none h]
  simpa using hne

/-- A word ends where a separator or the end of the text comes next. -/
theorem words_word_append (hne : word ≠ []) (h : ∀ c ∈ word, p c = false)
    (hrest : ∀ c, rest.head? = some c → p c = true) :
    words p (word ++ rest) = word :: words p rest := by
  cases rest with
  | nil => rw [List.append_nil, words_of_word hne h, words_of_gap (List.forall_mem_nil _)]
  | cons c rest =>
    have hc := hrest c rfl
    rw [words_append hc, words_of_word hne h, words_cons hc]
    rfl

theorem Spaced.words_eq (h : Spaced p ws text) : words p text = ws := by
  induction h with
  | gap hgap => exact words_of_gap hgap
  | word hgap hne hword hrest _ ih =>
    rw [List.append_assoc, words_gap_append hgap, words_word_append hne hword hrest, ih]

theorem Spaced.cons {c : α} (hc : p c = true) (h : Spaced p ws text) : Spaced p ws (c :: text) := by
  cases h with
  | gap hgap => exact .gap (List.forall_mem_cons.mpr ⟨hc, hgap⟩)
  | word hgap hne hword hrest hmore =>
    exact .word (List.forall_mem_cons.mpr ⟨hc, hgap⟩) hne hword hrest hmore

/-- Every text is made of its words. -/
theorem spaced_words (p : α → Bool) (text : List α) : Spaced p (words p text) text := by
  induction text with
  | nil => exact .gap (List.forall_mem_nil _)
  | cons c rest ih =>
    cases hc : p c with
    | true =>
      rw [words_cons hc]
      exact ih.cons hc
    | false =>
      have hone : ∀ d ∈ [c], p d = false := List.forall_mem_singleton.mpr hc
      -- the character begins a word of its own, unless a word comes right behind it
      have halone (hrest : ∀ d, rest.head? = some d → p d = true) :
          Spaced p (words p (c :: rest)) (c :: rest) := by
        rw [show c :: rest = [c] ++ rest from rfl,
          words_word_append (List.cons_ne_nil c []) hone hrest]
        exact .word (List.forall_mem_nil _) (List.cons_ne_nil c []) hone hrest ih
      generalize hws : words p rest = ws at ih
      cases ih with
      | gap hgap => exact halone fun d hd => hgap d (List.mem_of_mem_head? hd)
      | @word gap word rest ws hgap hne hword hrest hmore =>
        cases gap with
        | cons d gap =>
          refine halone fun e he => ?_
          obtain rfl : d = e := Option.some.inj he
          exact hgap d List.mem_cons_self
        | nil =>
          have hlong : ∀ d ∈ c :: word, p d = false := List.forall_mem_cons.mpr ⟨hc, hword⟩
          have hwords : words p (c :: ([] ++ word ++ rest)) = (c :: word) :: ws := by
            rw [List.nil_append, ← List.cons_append,
              words_word_append (List.cons_ne_nil c word) hlong hrest, hmore.words_eq]
          rw [hwords]
          exact .word (List.forall_mem_nil _) (List.cons_ne_nil c word) hlong hrest hmore

/-! ## Trimming -/

/-- Only blanks are taken off a text. -/
theorem trim_eq (line : List Char) :
    ∃ lead tail, (∀ c ∈ lead, isBlank c = true) ∧ (∀ c ∈ tail, isBlank c = true)
      ∧ line = lead ++ trim line ++ tail := by
  have hblank : ∀ s : List Char, ∀ c ∈ s.takeWhile isBlank, isBlank c = true := fun s =>
    List.all_eq_true.mp List.all_takeWhile
  let rest := line.dropWhile isBlank
  have hrest : rest = trim line ++ (rest.reverse.takeWhile isBlank).reverse := by
    rw [trim, ← List.reverse_append, List.takeWhile_append_dropWhile, List.reverse_reverse]
  refine ⟨line.takeWhile isBlank, (rest.reverse.takeWhile isBlank).reverse, hblank line, ?_, ?_⟩
  · intro c hc
    exact hblank _ c (List.mem_reverse.mp hc)
  · rw [List.append_assoc, ← hrest, List.takeWhile_append_dropWhile]

/-- Where blanks are separators, trimming takes no word away. -/
theorem words_trim {p : Char → Bool} (hp : ∀ c, isBlank c = true → p c = true)
    (line : List Char) : words p (trim line) = words p line := by
  obtain ⟨lead, tail, hlead, htail, hline⟩ := trim_eq line
  have hwords := words_append_gap (fun c hc => hp c (htail c hc)) (lead ++ trim line)
  rw [words_gap_append fun c hc => hp c (hlead c hc)] at hwords
  rw [← hwords, ← hline]

/-- A trimmed text begins with the first character that is not blank. -/
theorem head?_trim (line : List Char) :
    (trim line).head? = (line.dropWhile isBlank).head? := by
  have hfirst := List.head?_dropWhile_not isBlank line
  rw [trim]
  cases hrest : line.dropWhile isBlank with
  | nil => rfl
  | cons c rest =>
    rw [hrest] at hfirst
    have hc : isBlank c = false := hfirst
    have hlast : [c].dropWhile isBlank = [c] := by
      rw [List.dropWhile_cons, hc]
      rfl
    rw [List.reverse_cons, List.dropWhile_append, hlast]
    split
    · rfl
    · rw [List.reverse_append]
      rfl

end UnionFS.Text
