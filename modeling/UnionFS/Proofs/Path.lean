import UnionFS.Proofs.Tree.Walk

/-!
# Paths as names

A path as text, cut at its slashes, is a list of names some of which name nothing.  What is left of
it below a root are the others, in order (`relative_eq`), unless one of its names leads upwards.
-/

namespace UnionFS

namespace Path

/-- The piece as a name, for the operating system. -/
def nameOf (piece : List Char) : Name := Utf8.encode (String.ofList piece)

/-- What stands between the slashes of a path. -/
def names (path : String) : List Name := (slashPieces path.toList).map nameOf

theorem nameOf_injective {a b : List Char} (h : nameOf a = nameOf b) : a = b :=
  String.ofList_injective (Utf8.encode_injective h)

theorem nameOf_nil : nameOf [] = [] := by decide

theorem nameOf_dot : nameOf dot = Name.dot := by decide

theorem nameOf_dotDot : nameOf dotDot = Name.dotDot := by decide

theorem nameOf_eq_iff {a b : List Char} : nameOf a = nameOf b ↔ a = b :=
  ⟨nameOf_injective, congrArg nameOf⟩

theorem isIdle_nameOf (piece : List Char) :
    (nameOf piece).isIdle = (piece.isEmpty || piece == dot) := by
  have hnil := nameOf_eq_iff (a := piece) (b := [])
  have hdot := nameOf_eq_iff (a := piece) (b := dot)
  rw [nameOf_nil] at hnil
  rw [nameOf_dot] at hdot
  rw [Name.isIdle, Bool.eq_iff_iff]
  simp only [Bool.or_eq_true, List.isEmpty_iff, beq_iff_eq]
  exact or_congr hnil hdot

theorem dotDot_mem_names {path : String} :
    Name.dotDot ∈ names path ↔ dotDot ∈ slashPieces path.toList := by
  rw [names, List.mem_map]
  constructor
  · rintro ⟨piece, hmem, hpiece⟩
    rwa [← nameOf_injective (hpiece.trans nameOf_dotDot.symm)]
  · intro hmem
    exact ⟨dotDot, hmem, nameOf_dotDot⟩

/-- Whether a piece names something. -/
def isBusy (piece : List Char) : Bool := !(piece.isEmpty || piece == dot)

/-- The text of a component that is a name. -/
def Component.text? : Component → Option (List Char)
  | .name text => some text
  | _ => none

/-- **The components of a path are those of its pieces**, after what its start may be. -/
theorem components_eq (path : List Char) :
    ∃ start, (∀ c ∈ start, c = .root ∨ c = .current)
      ∧ components path = start ++ (slashPieces path).filterMap Component.ofPiece? := by
  unfold components
  split
  · next h => exact absurd h (Text.pieces_ne_nil _ path)
  · next first rest h =>
    dsimp only
    rw [h, List.filterMap_cons]
    by_cases hnil : first = []
    · subst hnil
      refine ⟨if rest.isEmpty then [] else [.root], ?_, rfl⟩
      intro c hc
      split at hc
      · cases hc
      · exact .inl (List.mem_singleton.mp hc)
    · have hempty : ¬ first.isEmpty = true := by simpa using hnil
      rw [if_neg hempty]
      by_cases hdot : first = dot
      · subst hdot
        exact ⟨[.current], fun c hc => .inr (List.mem_singleton.mp hc), rfl⟩
      · refine ⟨[], fun c hc => (by cases hc), ?_⟩
        rw [if_neg (by simpa using hdot), List.nil_append]
        cases Component.ofPiece? first <;> rfl

theorem ofPiece?_eq_parent {piece : List Char} :
    Component.ofPiece? piece = some .parent ↔ piece = dotDot := by
  unfold Component.ofPiece?
  by_cases hidle : (piece.isEmpty || piece == dot) = true
  · rw [if_pos hidle]
    constructor
    · intro h
      cases h
    · intro h
      rw [h] at hidle
      exact absurd hidle (by decide)
  · rw [if_neg hidle]
    by_cases hdotDot : piece = dotDot
    · rw [if_pos (by simpa using hdotDot)]
      exact ⟨fun _ => hdotDot, fun _ => rfl⟩
    · rw [if_neg (by simpa using hdotDot)]
      constructor
      · intro h
        cases h
      · intro h
        exact absurd h hdotDot

theorem text?_ofPiece? {piece : List Char} (h : piece ≠ dotDot) :
    (Component.ofPiece? piece).bind Component.text? =
      if isBusy piece then some piece else none := by
  unfold Component.ofPiece? isBusy
  by_cases hidle : (piece.isEmpty || piece == dot) = true
  · rw [if_pos hidle, hidle]
    rfl
  · rw [if_neg hidle, if_neg (by simpa using h), Bool.eq_false_iff.mpr hidle]
    rfl

theorem parent_mem_components {path : List Char} :
    .parent ∈ components path ↔ dotDot ∈ slashPieces path := by
  obtain ⟨start, hstart, heq⟩ := components_eq path
  rw [heq, List.mem_append, List.mem_filterMap]
  constructor
  · rintro (h | ⟨piece, hmem, hpiece⟩)
    · rcases hstart _ h with hc | hc <;> cases hc
    · rwa [← ofPiece?_eq_parent.mp hpiece]
  · intro h
    exact .inr ⟨dotDot, h, ofPiece?_eq_parent.mpr rfl⟩

theorem texts_components {path : List Char} (h : dotDot ∉ slashPieces path) :
    (components path).filterMap Component.text? = (slashPieces path).filter isBusy := by
  obtain ⟨start, hstart, heq⟩ := components_eq path
  have hnone : start.filterMap Component.text? = [] := by
    refine List.filterMap_eq_nil_iff.mpr fun c hc => ?_
    rcases hstart c hc with rfl | rfl <;> rfl
  rw [heq, List.filterMap_append, hnone, List.nil_append, List.filterMap_filterMap]
  generalize slashPieces path = pieces at h
  induction pieces with
  | nil => rfl
  | cons piece rest ih =>
      have hpiece : piece ≠ dotDot := by
        rintro rfl
        exact h List.mem_cons_self
      have hrest : dotDot ∉ rest := by
        intro hmem
        exact h (List.mem_cons_of_mem piece hmem)
      rw [List.filterMap_cons, text?_ofPiece? hpiece, ih hrest, List.filter_cons]
      cases isBusy piece <;> rfl

/-- **A path below a root**: refused if one of its names leads upwards, else its names in order but
those that name nothing. -/
theorem relative_eq (path : String) :
    relative path.toList =
      if dotDot ∈ slashPieces path.toList then .error .accessDenied
      else .ok ((slashPieces path.toList).filter isBusy) := by
  rw [relative]
  by_cases h : dotDot ∈ slashPieces path.toList
  · rw [if_pos h, if_pos (List.elem_eq_true_of_mem (parent_mem_components.mpr h))]
  · rw [if_neg h, if_neg]
    · exact congrArg Except.ok (texts_components h)
    · intro hc
      exact h (parent_mem_components.mp (List.mem_of_elem_eq_true hc))

/-- The names of a path but those that name nothing. -/
theorem names_filter (path : String) :
    (names path).filter (!·.isIdle) =
      ((slashPieces path.toList).filter isBusy).map nameOf := by
  rw [names, List.filter_map]
  congr 1
  refine List.filter_congr fun piece _ => ?_
  rw [Function.comp_apply, isIdle_nameOf, isBusy]

end Path
end UnionFS
