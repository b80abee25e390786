/-!
# Pieces and words

A text is cut at separators into pieces, some of which may be empty; its words are the pieces that
are not.  Main statements: `mem_pieces`, a piece holds no separator, and `join_pieces`, no character
that is not a separator is lost.
-/

namespace UnionFS.Text

variable {α : Type}

/-- What stands before, between and after the separators: one piece more than there are of those. -/
def pieces (isSeparator : α → Bool) : List α → List (List α)
  | [] => [[]]
  | c :: rest =>
    match pieces isSeparator rest with
    | [] => [[c]]
    | piece :: more => if isSeparator c then [] :: piece :: more else (c :: piece) :: more

/-- The pieces that hold something. -/
def words (isSeparator : α → Bool) (text : List α) : List (List α) :=
  (pieces isSeparator text).filter (!·.isEmpty)

theorem pieces_ne_nil (p : α → Bool) (text : List α) : pieces p text ≠ [] := by
  cases text with
  | nil => simp [pieces]
  | cons c rest => rw [pieces]; split <;> simp; split <;> simp

theorem pieces_separator {p : α → Bool} {c : α} (h : p c = true) (rest : List α) :
    pieces p (c :: rest) = [] :: pieces p rest := by
  rw [pieces]
  split
  · next e => exact absurd e (pieces_ne_nil p rest)
  · next e => rw [if_pos h, e]

theorem pieces_other {p : α → Bool} {c : α} (h : p c = false) {rest piece : List α}
    {more : List (List α)} (e : pieces p rest = piece :: more) :
    pieces p (c :: rest) = (c :: piece) :: more := by
  rw [pieces, e]; simp [h]

/-- A text without separators is one piece. -/
theorem pieces_of_none {p : α → Bool} {text : List α} (h : ∀ c ∈ text, p c = false) :
    pieces p text = [text] := by
  induction text with
  | nil => rfl
  | cons c rest ih =>
    exact pieces_other (h c List.mem_cons_self) (ih fun d hd => h d (List.mem_cons_of_mem c hd))

/-- A separator ends a piece: what stands before it and after it is cut separately. -/
theorem pieces_append {p : α → Bool} {c : α} (h : p c = true) (a b : List α) :
    pieces p (a ++ c :: b) = pieces p a ++ pieces p b := by
  induction a with
  | nil => exact pieces_separator h b
  | cons d rest ih =>
    cases hd : p d with
    | true => rw [List.cons_append, pieces_separator hd, ih, pieces_separator hd, List.cons_append]
    | false =>
      cases e : pieces p rest with
      | nil => exact absurd e (pieces_ne_nil p rest)
      | cons first more =>
        rw [pieces_other hd e, List.cons_append]
        exact pieces_other hd (by rw [ih, e]; rfl)

theorem mem_pieces {p : α → Bool} {text piece : List α} (h : piece ∈ pieces p text) :
    ∀ c ∈ piece, p c = false := by
  induction text generalizing piece with
  | nil => simp [pieces] at h; subst h; simp
  | cons c rest ih =>
    cases hc : p c with
    | true =>
      rw [pieces_separator hc] at h
      rcases List.mem_cons.mp h with rfl | h
      · simp
      · exact ih h
    | false =>
      cases e : pieces p rest with
      | nil => exact absurd e (pieces_ne_nil p rest)
      | cons first more =>
        rw [pieces_other hc e] at h
        rw [e] at ih
        rcases List.mem_cons.mp h with rfl | h
        · intro d hd
          rcases List.mem_cons.mp hd with rfl | hd
          · exact hc
          · exact ih (List.mem_cons_self ..) d hd
        · exact ih (List.mem_cons_of_mem _ h)

/-- The pieces in a row are the text without its separators. -/
theorem join_pieces (p : α → Bool) (text : List α) :
    (pieces p text).flatten = text.filter (!p ·) := by
  induction text with
  | nil => rfl
  | cons c rest ih =>
    cases hc : p c with
    | true => rw [pieces_separator hc]; simp [hc, ih]
    | false =>
      cases e : pieces p rest with
      | nil => exact absurd e (pieces_ne_nil p rest)
      | cons first more =>
        rw [pieces_other hc e]
        rw [e] at ih
        simpa [hc] using ih

end UnionFS.Text
