import Mathlib.Data.List.Basic
import Mathlib.Logic.Relation
import UnionFS.Proofs.Path

/-!
# Spellings of a path

One path can be written in many ways: with slashes more at its start, at its end or in a row, and
with pieces `.` (`Respelled`).  The spellings of a path are those that have the same busy pieces in
the same order (`respelled_iff`): one step of respelling keeps these, and in return the idle pieces
can be dropped one by one from any path (`respelled_slashed`).  So below a root it does not matter
which spelling is given (`normalised`).

What a path comes to there are names: any pieces but the empty one, `.` and `..`, so that `...` and
`..a` are names like others.  With slashes between them they make a path of which nothing is left to
drop (`relative_joinText`), and behind any root they add themselves to the root's components
(`components_join`), because that path does not start at a root of its own.
-/

namespace UnionFS

theorem Text.pieces_eq_splitOnP {α : Type} (p : α → Bool) (text : List α) :
    pieces p text = text.splitOnP p := by
  induction text with
  | nil => rw [pieces, List.splitOnP_nil]
  | cons c rest ih =>
    rw [List.splitOnP_cons_eq_if_modifyHead, ← ih]
    cases hc : p c with
    | true => rw [pieces_separator hc, if_pos rfl]
    | false =>
      cases e : pieces p rest with
      | nil => exact absurd e (pieces_ne_nil p rest)
      | cons first more =>
        rw [pieces_other hc e]
        rfl

namespace Path

variable {path piece a b : List Char} {names pieces : List (List Char)}

/-! ## Names -/

theorem slashPieces_eq_splitOn (path : List Char) : slashPieces path = path.splitOn '/' := by
  rw [List.splitOn_eq_splitOnP]
  exact Text.pieces_eq_splitOnP _ path

theorem slashPieces_nil : slashPieces [] = [[]] := rfl

theorem slashPieces_ne_nil (path : List Char) : slashPieces path ≠ [] :=
  Text.pieces_ne_nil _ path

theorem slashPieces_append (a b : List Char) :
    slashPieces (a ++ '/' :: b) = slashPieces a ++ slashPieces b :=
  Text.pieces_append (by decide) a b

theorem joinText_slashPieces (path : List Char) : joinText (slashPieces path) = path := by
  rw [slashPieces_eq_splitOn]
  exact List.intercalate_splitOn '/'

theorem slash_not_mem_of_mem (h : piece ∈ slashPieces path) : '/' ∉ piece := by
  intro hmem
  exact absurd (Text.mem_pieces h '/' hmem) (by decide)

/-- A piece that is the name of something below a directory. -/
structure IsName (piece : List Char) : Prop where
  ne_nil : piece ≠ []
  ne_dot : piece ≠ dot
  ne_dotDot : piece ≠ dotDot
  no_slash : '/' ∉ piece

theorem isBusy_iff : isBusy piece = true ↔ piece ≠ [] ∧ piece ≠ dot := by
  simp [isBusy]

theorem IsName.ofPiece?_eq (h : IsName piece) :
    Component.ofPiece? piece = some (.name piece) := by
  have hbusy : (piece.isEmpty || piece == dot) = false := by
    simp [h.ne_nil, h.ne_dot]
  rw [Component.ofPiece?, hbusy, if_neg Bool.false_ne_true, if_neg (by simpa using h.ne_dotDot)]

theorem filterMap_of_names (h : ∀ name ∈ names, IsName name) :
    names.filterMap Component.ofPiece? = names.map .name :=
  List.filterMap_eq_map_iff_forall_eq_some.mpr fun name hname => (h name hname).ofPiece?_eq

theorem slashPieces_joinText (h : ∀ name ∈ names, IsName name) (hne : names ≠ []) :
    slashPieces (joinText names) = names := by
  rw [slashPieces_eq_splitOn]
  exact List.splitOn_intercalate '/' (fun name hname => (h name hname).no_slash) hne

theorem filterMap_slashPieces_joinText (h : ∀ name ∈ names, IsName name) :
    (slashPieces (joinText names)).filterMap Component.ofPiece? = names.map .name := by
  by_cases hne : names = []
  · subst hne
    rfl
  · rw [slashPieces_joinText h hne, filterMap_of_names h]

/-! ## Components -/

variable {first : List Char} {rest more : List (List Char)}

theorem slashPieces_append_of_cons (h : slashPieces a = first :: more) (b : List Char) :
    slashPieces (a ++ '/' :: b) = first :: (more ++ slashPieces b) := by
  rw [slashPieces_append, h, List.cons_append]

theorem components_of_pieces (h : slashPieces path = first :: rest) :
    components path =
      (if first.isEmpty then (if rest.isEmpty then [] else [Component.root])
        else if first == dot then [.current]
        else (Component.ofPiece? first).toList) ++ rest.filterMap Component.ofPiece? := by
  rw [components, h]

/-- **What stands behind a slash adds its own components.** -/
theorem components_append (a b : List Char) :
    components (a ++ '/' :: b) =
      components (a ++ ['/']) ++ (slashPieces b).filterMap Component.ofPiece? := by
  obtain ⟨first, more, hfirst⟩ := List.exists_cons_of_ne_nil (slashPieces_ne_nil a)
  have hlong := slashPieces_append_of_cons hfirst b
  have hshort := slashPieces_append_of_cons hfirst []
  -- an empty first piece is the root where another follows, and in both texts one does
  have hb := slashPieces_ne_nil b
  rw [components_of_pieces hlong, components_of_pieces hshort]
  simp [hb, slashPieces_nil, Component.ofPiece?]

/-- A slash at the end adds nothing, unless it is the root itself. -/
theorem components_concat (h : a ≠ []) : components (a ++ ['/']) = components a := by
  obtain ⟨first, more, hfirst⟩ := List.exists_cons_of_ne_nil (slashPieces_ne_nil a)
  have hconcat := slashPieces_append_of_cons hfirst []
  -- an empty first piece with none behind it would be the empty text
  have hmore : first = [] → more ≠ [] := by
    rintro rfl rfl
    apply h
    rw [← joinText_slashPieces a, hfirst]
    rfl
  rw [components_of_pieces hconcat, components_of_pieces hfirst]
  by_cases hnil : first = []
  · simp [hnil, hmore hnil, slashPieces_nil, Component.ofPiece?]
  · simp [hnil, slashPieces_nil, Component.ofPiece?]

/-- **Names with slashes between them are the components of that text**, and there are no others. -/
theorem components_joinText (h : ∀ name ∈ names, IsName name) :
    components (joinText names) = names.map .name := by
  cases names with
  | nil => rfl
  | cons first rest =>
    have hfirst := h first List.mem_cons_self
    rw [components_of_pieces (slashPieces_joinText h (List.cons_ne_nil first rest)),
      if_neg (by simpa using hfirst.ne_nil), if_neg (by simpa using hfirst.ne_dot),
      hfirst.ofPiece?_eq, filterMap_of_names (List.forall_mem_cons.mp h).2]
    rfl

theorem not_slash_prefix_joinText (h : ∀ name ∈ names, IsName name) :
    ¬ ['/'] <+: joinText names := by
  rintro ⟨rest, hrest⟩
  have hcomponents := components_append [] rest
  rw [List.nil_append, show '/' :: rest = ['/'] ++ rest from rfl, hrest,
    components_joinText h] at hcomponents
  have hroot : Component.root ∈ names.map Component.name := by
    rw [hcomponents]
    exact List.mem_append_left _ List.mem_cons_self
  obtain ⟨name, -, hname⟩ := List.mem_map.mp hroot
  cases hname

/-! ## Below a root -/

/-- The pieces of a path that name something. -/
def busyPieces (path : List Char) : List (List Char) := (slashPieces path).filter isBusy

theorem isName_of_busy (hdotDot : dotDot ∉ slashPieces path) (h : piece ∈ busyPieces path) :
    IsName piece := by
  obtain ⟨hmem, hbusy⟩ := List.mem_filter.mp h
  exact {
    ne_nil := (isBusy_iff.mp hbusy).1
    ne_dot := (isBusy_iff.mp hbusy).2
    ne_dotDot := fun heq => hdotDot (heq ▸ hmem)
    no_slash := slash_not_mem_of_mem hmem }

theorem relative_eq_ite (path : List Char) :
    relative path =
      if dotDot ∈ slashPieces path then .error .accessDenied else .ok (busyPieces path) := by
  have h := relative_eq (String.ofList path)
  rwa [String.toList_ofList] at h

theorem relative_eq_ok_iff :
    relative path = .ok names ↔ dotDot ∉ slashPieces path ∧ names = busyPieces path := by
  rw [relative_eq_ite]
  by_cases h : dotDot ∈ slashPieces path
  · simp [h]
  · simp [h, eq_comm]

theorem relative_eq_error_iff :
    relative path = .error .accessDenied ↔ dotDot ∈ slashPieces path := by
  rw [relative_eq_ite]
  by_cases h : dotDot ∈ slashPieces path
  · simp [h]
  · simp [h]

theorem isSafe_iff : isSafe path = true ↔ dotDot ∉ slashPieces path := by
  rw [isSafe, Bool.not_eq_true', ← parent_mem_components]
  simp

theorem isName_of_relative (h : relative path = .ok names) : ∀ name ∈ names, IsName name := by
  obtain ⟨hdotDot, rfl⟩ := relative_eq_ok_iff.mp h
  exact fun name hname => isName_of_busy hdotDot hname

/-- **Nothing is left to drop from names with slashes between them.** -/
theorem relative_joinText (h : ∀ name ∈ names, IsName name) :
    relative (joinText names) = .ok names := by
  have hparent : (names.map Component.name).contains .parent = false := by
    simp
  rw [relative, components_joinText h]
  simp only [hparent, Bool.false_eq_true, if_false, List.filterMap_map]
  exact congrArg Except.ok List.filterMap_some

theorem endsWith_slash_iff {root : String} :
    root.endsWith "/" = true ↔ ['/'] <:+ root.toList := by
  rw [String.endsWith_eq_endsWith_toSlice, String.Slice.endsWith_string_iff, String.copy_toSlice]
  rfl

/-- **Behind a root, names add themselves to its components**, and nothing else. -/
theorem components_join (root : String) (h : ∀ name ∈ names, IsName name) :
    components (join root (String.ofList (joinText names))).toList =
      components root.toList ++ names.map .name := by
  have hrelative : ¬ (String.ofList (joinText names)).startsWith "/" = true := by
    intro hslash
    exact not_slash_prefix_joinText h (by simpa using String.startsWith_string_iff.mp hslash)
  rw [join, if_neg hrelative]
  by_cases hempty : root = ""
  · have hroot : components [] = [] := rfl
    subst hempty
    simpa [hroot] using components_joinText h
  by_cases hslash : root.endsWith "/" = true
  · obtain ⟨front, hfront⟩ := endsWith_slash_iff.mp hslash
    rw [if_pos (by simp [hslash]), String.toList_append, String.toList_ofList, ← hfront,
      List.append_assoc, List.singleton_append, components_append, filterMap_slashPieces_joinText h]
  · have hne : root.toList ≠ [] := by simpa using hempty
    have htext : (root ++ "/" ++ String.ofList (joinText names)).toList =
        root.toList ++ '/' :: joinText names := by
      simp
    rw [if_neg (by simp [hempty, hslash]), htext, components_append, components_concat hne,
      filterMap_slashPieces_joinText h]

/-- Names behind a root are within it. -/
theorem isWithin_join (root : String) (h : ∀ name ∈ names, IsName name) :
    isWithin (join root (String.ofList (joinText names))).toList root.toList = true := by
  rw [isWithin, components_join root h, List.isPrefixOf_iff_prefix]
  exact List.prefix_append _ _

/-! ## Spellings -/

/-- The second path is the first with one slash or one piece `.` more.  A `.` at an end of a path
stands between slashes once one has been added there. -/
inductive Loosens : List Char → List Char → Prop where
  | leading (path : List Char) : Loosens path ('/' :: path)
  | trailing (path : List Char) : Loosens path (path ++ ['/'])
  | repeated (a b : List Char) : Loosens (a ++ '/' :: b) (a ++ '/' :: '/' :: b)
  | dot (a b : List Char) : Loosens (a ++ '/' :: b) (a ++ '/' :: '.' :: '/' :: b)

/-- Two paths differ only in slashes at the start, at the end or in a row, and in pieces `.`. -/
def Respelled : List Char → List Char → Prop := Relation.EqvGen Loosens

theorem busyPieces_append (a b : List Char) :
    busyPieces (a ++ '/' :: b) = busyPieces a ++ busyPieces b := by
  rw [busyPieces, slashPieces_append, List.filter_append, busyPieces, busyPieces]

theorem busyPieces_nil : busyPieces [] = [] := rfl

theorem busyPieces_slash (path : List Char) : busyPieces ('/' :: path) = busyPieces path :=
  busyPieces_append [] path

theorem busyPieces_dot_slash (path : List Char) :
    busyPieces ('.' :: '/' :: path) = busyPieces path :=
  busyPieces_append dot path

/-- One slash or one piece `.` more leaves the busy pieces as they are. -/
theorem Loosens.busyPieces_eq (h : Loosens a b) : busyPieces a = busyPieces b := by
  cases h with
  | leading => rw [busyPieces_slash]
  | trailing => rw [busyPieces_append, busyPieces_nil, List.append_nil]
  | repeated => rw [busyPieces_append, busyPieces_append, busyPieces_slash]
  | dot => rw [busyPieces_append, busyPieces_append, busyPieces_dot_slash]

theorem Respelled.busyPieces_eq (h : Respelled a b) : busyPieces a = busyPieces b := by
  induction h with
  | rel _ _ hstep => exact hstep.busyPieces_eq
  | refl _ => rfl
  | symm _ _ _ ih => exact ih.symm
  | trans _ _ _ _ _ hfirst hsecond => exact hfirst.trans hsecond

/-- Pieces with a slash before each. -/
def slashed (pieces : List (List Char)) : List Char := pieces.flatMap ('/' :: ·)

theorem slash_joinText (h : pieces ≠ []) : '/' :: joinText pieces = slashed pieces := by
  induction pieces with
  | nil => exact absurd rfl h
  | cons piece rest ih =>
    cases rest with
    | nil => simp [joinText, slashed]
    | cons next more =>
      rw [joinText, List.intercalate_cons_cons, ← joinText]
      simpa [slashed] using ih (List.cons_ne_nil next more)

theorem exists_slashed_concat (pieces : List (List Char)) :
    ∃ rest, slashed pieces ++ ['/'] = '/' :: rest := by
  cases pieces with
  | nil => exact ⟨[], rfl⟩
  | cons piece more => exact ⟨_, rfl⟩

/-- **Idle pieces can be dropped**, whatever stands before them. -/
theorem respelled_slashed (front : List Char) (pieces : List (List Char)) :
    Respelled (front ++ (slashed (pieces.filter isBusy) ++ ['/']))
      (front ++ (slashed pieces ++ ['/'])) := by
  induction pieces generalizing front with
  | nil => exact .refl _
  | cons piece rest ih =>
    cases hbusy : isBusy piece with
    | true =>
      have hrest := ih (front ++ '/' :: piece)
      rw [List.filter_cons_of_pos hbusy]
      simpa [slashed] using hrest
    | false =>
      rw [List.filter_cons_of_neg (by simp [hbusy])]
      refine .trans _ _ _ (ih front) (.rel _ _ ?_)
      -- a slash follows in any case, so that the piece goes together with the slash before it
      have hslashed : slashed (piece :: rest) ++ ['/'] =
          '/' :: piece ++ (slashed rest ++ ['/']) := by
        simp [slashed]
      obtain ⟨more, hmore⟩ := exists_slashed_concat rest
      rw [hslashed, hmore]
      have hidle : ¬ (piece ≠ [] ∧ piece ≠ Path.dot) := by
        rw [← isBusy_iff, hbusy]
        exact Bool.false_ne_true
      obtain rfl | rfl := Decidable.or_iff_not_not_and_not.mpr hidle
      · exact .repeated front more
      · exact .dot front more

/-- **Every path is a spelling of its busy pieces.** -/
theorem respelled_busyPieces (path : List Char) :
    Respelled (slashed (busyPieces path) ++ ['/']) path := by
  have hwhole : slashed (slashPieces path) ++ ['/'] = '/' :: path ++ ['/'] := by
    rw [← slash_joinText (slashPieces_ne_nil path), joinText_slashPieces]
  have hdropped := respelled_slashed [] (slashPieces path)
  rw [List.nil_append, List.nil_append, hwhole] at hdropped
  have hloose : Respelled path ('/' :: path ++ ['/']) :=
    .trans _ _ _ (.rel _ _ (.leading path)) (.rel _ _ (.trailing _))
  exact .trans _ _ _ hdropped (.symm _ _ hloose)

theorem respelled_iff : Respelled a b ↔ busyPieces a = busyPieces b := by
  constructor
  · exact Respelled.busyPieces_eq
  · intro h
    have ha := respelled_busyPieces a
    rw [h] at ha
    exact .trans _ _ _ (.symm _ _ ha) (respelled_busyPieces b)

theorem dotDot_mem_busyPieces : dotDot ∈ busyPieces path ↔ dotDot ∈ slashPieces path := by
  rw [busyPieces, List.mem_filter]
  exact and_iff_left (by decide)

/-- **All spellings of a path come to the same below a root**, or are all refused. -/
theorem Respelled.relative_congr (h : Respelled a b) : relative a = relative b := by
  have hbusy := h.busyPieces_eq
  have hdotDot : dotDot ∈ slashPieces a ↔ dotDot ∈ slashPieces b := by
    rw [← dotDot_mem_busyPieces, hbusy, dotDot_mem_busyPieces]
  rw [relative_eq_ite, relative_eq_ite, hbusy]
  simp only [hdotDot]

/-! ## What a path comes to -/

/-- What a path comes to below a root, and below which root it stays. -/
structure Normalised (path : List Char) : Prop where
  /-- It is refused exactly if one of its pieces is `..`. -/
  refused : relative path = .error .accessDenied ↔ dotDot ∈ path.splitOn '/'
  /-- Any other comes to its pieces in order, without those that are empty or `.`. -/
  taken : ∀ names, relative path = .ok names ↔ dotDot ∉ path.splitOn '/' ∧
    names = (path.splitOn '/').filter fun piece => piece ≠ [] ∧ piece ≠ dot
  safe : isSafe path = true ↔ dotDot ∉ path.splitOn '/'
  /-- As a text, these do not start at a root, and there are no other components in it. -/
  isRelative : ∀ names, relative path = .ok names →
    ¬ ['/'] <+: joinText names ∧ components (joinText names) = names.map .name
  again : ∀ names, relative path = .ok names → relative (joinText names) = .ok names
  /-- Another spelling comes to the same, or is refused as well. -/
  respelled : ∀ other, Respelled path other → relative other = relative path
  /-- And what comes to the same names is another spelling. -/
  only_respelled : ∀ other names, relative path = .ok names → relative other = .ok names →
    Respelled path other
  /-- Behind any root, absolute or not, the names follow its components. -/
  within : ∀ names, relative path = .ok names → ∀ root : String,
    components (join root (String.ofList (joinText names))).toList =
        components root.toList ++ names.map .name
      ∧ isWithin (join root (String.ofList (joinText names))).toList root.toList = true

/-- **A path below a root comes to its names**, however it is spelled. -/
theorem normalised (path : List Char) : Normalised path where
  refused := by
    rw [← slashPieces_eq_splitOn]
    exact relative_eq_error_iff
  taken := by
    intro names
    have hbusy : busyPieces path =
        (slashPieces path).filter fun piece => piece ≠ [] ∧ piece ≠ dot := by
      refine List.filter_congr fun piece _ => ?_
      rw [Bool.eq_iff_iff, isBusy_iff, decide_eq_true_iff]
    rw [← slashPieces_eq_splitOn, ← hbusy]
    exact relative_eq_ok_iff
  safe := by
    rw [← slashPieces_eq_splitOn]
    exact isSafe_iff
  isRelative := by
    intro names h
    have hnames := isName_of_relative h
    exact ⟨not_slash_prefix_joinText hnames, components_joinText hnames⟩
  again := fun _ h => relative_joinText (isName_of_relative h)
  respelled := fun _ h => h.relative_congr.symm
  only_respelled := by
    intro other names hpath hother
    obtain ⟨-, rfl⟩ := relative_eq_ok_iff.mp hpath
    exact respelled_iff.mpr (relative_eq_ok_iff.mp hother).2
  within := by
    intro names h root
    have hnames := isName_of_relative h
    exact ⟨components_join root hnames, isWithin_join root hnames⟩

example : relative "/./..a//.../b../".toList =
    .ok ["..a".toList, "...".toList, "b..".toList] := by
  decide

end Path
end UnionFS
