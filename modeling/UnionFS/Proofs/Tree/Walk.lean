import UnionFS.Tree.WellFormed

/-!
# Walks through a tree

Where the names of a path lead, as a relation: one rule for each kind of name and of object, and the
number of links on the way.  The function that resolves paths finds exactly what the relation allows
(`resolve_eq_ok_iff`), so whoever reasons about paths can go by induction on a walk.

* `Leads.append_congr`: what follows some names can be replaced by what leads on in the same way;
* `Leads.drop_idle`: names that name nothing can be left out;
* `Leads.isCanonical`: in a well-formed tree a walk ends at an object that is no link.
-/

namespace UnionFS

namespace Name

/-- A name that neither stays nor goes up. -/
structure IsProper (name : Name) : Prop where
  ne_nil : name ≠ []
  ne_dot : name ≠ dot
  ne_dotDot : name ≠ dotDot

/-- A name that a path is as good without. -/
def isIdle (name : Name) : Bool := name.isEmpty || name == dot

/-- An empty name stands for a dot, as after a slash at the end of a path. -/
def orDot (name : Name) : Name := if name.isEmpty then dot else name

theorem orDot_ne_nil (name : Name) : name.orDot ≠ [] := by
  unfold orDot
  split
  · decide
  · next h => simpa using h

theorem isIdle_orDot (name : Name) : name.orDot.isIdle = name.isIdle := by
  cases name <;> rfl

end Name

namespace Tree

/-- The object that a name leads to from a directory. -/
structure Enters (t : Tree) (here : Path) (name : Name) (n : Node) : Prop where
  proper : name.IsProper
  searched : t.searchable here = true
  short : name.length ≤ Name.limit
  found : t.lookup (here ++ [name]) = some n

/-- Where the target of a link is followed from. -/
def linkBase (here : Path) (target : Bytes) : Path :=
  if target.head? == some Name.slash then [] else here

/-- From the directory `here` the names lead to `q`, through this many links. -/
inductive Leads (t : Tree) : Path → List Name → Nat → Path → Prop where
  | stop {here : Path} : Leads t here [] 0 here
  | idle {here q : Path} {todo : List Name} {k : Nat} :
    Leads t here todo k q → Leads t here ([] :: todo) k q
  | stay {here q : Path} {todo : List Name} {k : Nat} :
    t.searchable here = true → Leads t here todo k q → Leads t here (Name.dot :: todo) k q
  | up {here q : Path} {todo : List Name} {k : Nat} :
    t.searchable here = true → Leads t here.dropLast todo k q →
      Leads t here (Name.dotDot :: todo) k q
  | directory {here q : Path} {name : Name} {todo : List Name} {k : Nat} {n : Node} :
    t.Enters here name n → n.content = .directory → Leads t (here ++ [name]) todo k q →
      Leads t here (name :: todo) k q
  | file {here : Path} {name : Name} {n : Node} {data : Bytes} :
    t.Enters here name n → n.content = .file data → Leads t here [name] 0 (here ++ [name])
  | link {here q : Path} {name : Name} {todo : List Name} {k : Nat} {n : Node} {target : Bytes} :
    t.Enters here name n → n.content = .link target →
      Leads t (linkBase here target) (Text.pieces (· == Name.slash) target ++ todo) k q →
      Leads t here (name :: todo) (k + 1) q

variable {t : Tree} {here q : Path} {name : Name} {todo : List Name} {links k : Nat} {n : Node}

theorem child_eq_ok : t.child here name = .ok n ↔
    name.length ≤ Name.limit ∧ t.lookup (here ++ [name]) = some n := by
  unfold child
  by_cases hlen : Name.limit < name.length
  · rw [if_pos hlen]
    constructor
    · intro h
      cases h
    · intro h
      exact absurd h.1 (by omega)
  · rw [if_neg hlen, and_iff_right (Nat.not_lt.mp hlen)]
    cases t.lookup (here ++ [name]) with
    | none =>
        constructor
        · intro h
          cases h
        · intro h
          cases h
    | some m => rw [Except.ok.injEq, Option.some.injEq]

theorem resolve_idle : t.resolve links here ([] :: todo) = t.resolve links here todo := by
  rw [resolve]
  rfl

theorem resolve_dot (h : t.searchable here = true) :
    t.resolve links here (Name.dot :: todo) = t.resolve links here todo := by
  rw [resolve, if_neg (by decide), if_neg (by simpa using h), if_pos (by decide)]

theorem resolve_dotDot (h : t.searchable here = true) :
    t.resolve links here (Name.dotDot :: todo) = t.resolve links here.dropLast todo := by
  rw [resolve, if_neg (by decide), if_neg (by simpa using h), if_neg (by decide),
    if_pos (by decide)]

/-- The checks that resolving makes before it looks a name up. -/
theorem enters_of_checks (hnil : ¬ name.isEmpty = true) (hsearch : ¬ (!t.searchable here) = true)
    (hdot : ¬ (name == Name.dot) = true) (hdotDot : ¬ (name == Name.dotDot) = true)
    (hchild : t.child here name = .ok n) : t.Enters here name n := by
  obtain ⟨hshort, hfound⟩ := child_eq_ok.mp hchild
  refine ⟨⟨?_, ?_, ?_⟩, by simpa using hsearch, hshort, hfound⟩
  · rintro rfl
    exact hnil rfl
  · rintro rfl
    exact hdot (by decide)
  · rintro rfl
    exact hdotDot (by decide)

/-- What resolving does with a name that leads to an object. -/
theorem resolve_of_enters (h : t.Enters here name n) :
    t.resolve links here (name :: todo) =
      match n.content with
      | .directory => t.resolve links (here ++ [name]) todo
      | .file _ => if todo.isEmpty then .ok (here ++ [name]) else .error .notDirectory
      | .link target =>
        match links with
        | 0 => .error .tooManyLinks
        | links + 1 =>
          t.resolve links (linkBase here target) (Text.pieces (· == Name.slash) target ++ todo) := by
  have hnil : ¬ name.isEmpty = true := by simpa using h.proper.ne_nil
  have hsearch : ¬ (!t.searchable here) = true := by simpa using h.searched
  have hdot : ¬ (name == Name.dot) = true := by simpa using h.proper.ne_dot
  have hdotDot : ¬ (name == Name.dotDot) = true := by simpa using h.proper.ne_dotDot
  rw [resolve, if_neg hnil, if_neg hsearch, if_neg hdot, if_neg hdotDot,
    child_eq_ok.mpr ⟨h.short, h.found⟩]
  rfl

/-- **Resolving finds exactly where a path leads**, if it leads there through few enough links. -/
theorem resolve_eq_ok_iff :
    t.resolve links here todo = .ok q ↔ ∃ k, k ≤ links ∧ t.Leads here todo k q := by
  constructor
  · intro h
    -- by the cases of the function; those that refuse are the last line
    fun_induction t.resolve links here todo
    case case1 =>
      cases h
      exact ⟨0, Nat.zero_le _, .stop⟩
    case case2 links here name todo hname ih =>
      obtain ⟨k, hk, hq⟩ := ih h
      rw [List.isEmpty_iff.mp hname]
      exact ⟨k, hk, .idle hq⟩
    case case4 links here name todo hname hsearch hdot ih =>
      obtain ⟨k, hk, hq⟩ := ih h
      rw [eq_of_beq hdot]
      exact ⟨k, hk, .stay (by simpa using hsearch) hq⟩
    case case5 links here name todo hname hsearch hdot hdotDot ih =>
      obtain ⟨k, hk, hq⟩ := ih h
      rw [eq_of_beq hdotDot]
      exact ⟨k, hk, .up (by simpa using hsearch) hq⟩
    case case7 links here name todo hname hsearch hdot hdotDot n hchild hn ih =>
      obtain ⟨k, hk, hq⟩ := ih h
      exact ⟨k, hk, .directory (enters_of_checks hname hsearch hdot hdotDot hchild) hn hq⟩
    case case8 links here name todo hname hsearch hdot hdotDot n hchild data hn htodo =>
      cases h
      rw [List.isEmpty_iff.mp htodo]
      exact ⟨0, Nat.zero_le _, .file (enters_of_checks hname hsearch hdot hdotDot hchild) hn⟩
    case case11 here name todo hname hsearch hdot hdotDot n hchild target hn links ih =>
      rw [dite_eq_ite] at ih
      obtain ⟨k, hk, hq⟩ := ih h
      have he := enters_of_checks hname hsearch hdot hdotDot hchild
      exact ⟨k + 1, Nat.succ_le_succ hk, .link he hn hq⟩
    case case3 | case6 | case9 | case10 => cases h
  · rintro ⟨k, hk, h⟩
    -- by the rules of the walk, for any number of links that is large enough
    induction h generalizing links with
    | stop => rw [resolve]
    | idle _ ih => rw [resolve_idle]; exact ih hk
    | stay hs _ ih => rw [resolve_dot hs]; exact ih hk
    | up hs _ ih => rw [resolve_dotDot hs]; exact ih hk
    | directory he hn _ ih =>
        rw [resolve_of_enters he, hn]
        exact ih hk
    | file he hn => rw [resolve_of_enters he, hn]; rfl
    | link he hn _ ih =>
        obtain ⟨links, rfl⟩ : ∃ l, links = l + 1 := ⟨links - 1, by omega⟩
        rw [resolve_of_enters he, hn]
        exact ih (by omega)

/-! ## Names that name nothing -/

theorem Leads.searchable (h : t.Leads here (name :: todo) k q) (hname : name ≠ []) :
    t.searchable here = true := by
  cases h with
  | idle => exact absurd rfl hname
  | stay hs | up hs => exact hs
  | directory he | file he | link he => exact he.searched

theorem Enters.not_isIdle (h : t.Enters here name n) : ¬ name.isIdle = true := by
  intro hidle
  rcases Bool.or_eq_true_iff.mp hidle with hnil | hdot
  · exact h.proper.ne_nil (List.isEmpty_iff.mp hnil)
  · exact h.proper.ne_dot (eq_of_beq hdot)

/-- What follows some names may be replaced by what leads on in the same way from everywhere. -/
theorem Leads.append_congr {a b b' : List Name} (hnil : b = [] → b' = [])
    (hb : ∀ here k q, t.Leads here b k q → t.Leads here b' k q)
    (h : t.Leads here (a ++ b) k q) : t.Leads here (a ++ b') k q := by
  generalize hnames : a ++ b = names at h
  -- in each case either the first names are used up, or the walk takes one more of them
  induction h generalizing a with
  | stop =>
      obtain ⟨rfl, rfl⟩ := List.append_eq_nil_iff.mp hnames
      rw [hnil rfl]
      exact .stop
  | idle h ih =>
      rcases List.append_eq_cons_iff.mp hnames with ⟨rfl, rfl⟩ | ⟨a, rfl, rfl⟩
      · exact hb _ _ _ (.idle h)
      · exact .idle (ih rfl)
  | stay hs h ih =>
      rcases List.append_eq_cons_iff.mp hnames with ⟨rfl, rfl⟩ | ⟨a, rfl, rfl⟩
      · exact hb _ _ _ (.stay hs h)
      · exact .stay hs (ih rfl)
  | up hs h ih =>
      rcases List.append_eq_cons_iff.mp hnames with ⟨rfl, rfl⟩ | ⟨a, rfl, rfl⟩
      · exact hb _ _ _ (.up hs h)
      · exact .up hs (ih rfl)
  | directory he hn h ih =>
      rcases List.append_eq_cons_iff.mp hnames with ⟨rfl, rfl⟩ | ⟨a, rfl, rfl⟩
      · exact hb _ _ _ (.directory he hn h)
      · exact .directory he hn (ih rfl)
  | file he hn =>
      rcases List.append_eq_cons_iff.mp hnames with ⟨rfl, rfl⟩ | ⟨a, rfl, ha⟩
      · exact hb _ _ _ (.file he hn)
      · -- a file is the end of a path, so nothing follows these names
        obtain ⟨rfl, rfl⟩ := List.append_eq_nil_iff.mp ha.symm
        rw [hnil rfl]
        exact .file he hn
  | link he hn h ih =>
      rcases List.append_eq_cons_iff.mp hnames with ⟨rfl, rfl⟩ | ⟨a, rfl, rfl⟩
      · exact hb _ _ _ (.link he hn h)
      · refine .link he hn ?_
        show t.Leads _ (_ ++ (a ++ b')) _ _
        rw [← List.append_assoc]
        exact ih (List.append_assoc _ _ _)

/-- **A path leads to the same place without the names that name nothing.** -/
theorem Leads.drop_idle (h : t.Leads here todo k q) :
    t.Leads here (todo.filter (!·.isIdle)) k q := by
  induction todo generalizing here k q with
  | nil => exact h
  | cons name todo ih =>
      have keep (he : ¬ name.isIdle = true) :
          (name :: todo).filter (!·.isIdle) = name :: todo.filter (!·.isIdle) :=
        List.filter_cons_of_pos (by simpa using he)
      cases h with
      | idle h => exact ih h
      | stay _ h => exact ih h
      | up hs h =>
          rw [keep (by decide)]
          exact .up hs (ih h)
      | directory he hn h =>
          rw [keep he.not_isIdle]
          exact .directory he hn (ih h)
      | file he hn =>
          rw [keep he.not_isIdle]
          exact .file he hn
      | link he hn h =>
          rw [keep he.not_isIdle]
          exact .link he hn (h.append_congr (fun hnil => by rw [hnil]; rfl) fun _ _ _ h => ih h)

/-- A dot may stand before any name. -/
theorem Leads.insert_dot {a b : List Name} (hname : name ≠ [])
    (h : t.Leads here (a ++ name :: b) k q) : t.Leads here (a ++ Name.dot :: name :: b) k q :=
  h.append_congr (fun hnil => by cases hnil) fun _ _ _ h => .stay (h.searchable hname) h

/-! ## Where walks end -/

/-- The one path of an object that is no link. -/
structure IsCanonical (t : Tree) (q : Path) : Prop where
  standing : ∃ n, t.lookup q = some n ∧ ∀ target, n.content ≠ .link target
  above : ∀ p rest, q = p ++ rest → rest ≠ [] → t.isDirectory p = true

theorem isDirectory_eq_true : t.isDirectory q = true ↔
    ∃ n, t.lookup q = some n ∧ n.content = .directory := by
  rw [isDirectory, Option.any_eq_true]
  refine exists_congr fun n => and_congr_right fun _ => ?_
  unfold Node.isDirectory
  split
  · next hn => exact iff_of_true rfl hn
  · next hn => exact iff_of_false Bool.false_ne_true hn

theorem isSome_of_isDirectory (h : t.isDirectory q = true) : (t.lookup q).isSome := by
  obtain ⟨n, hn, -⟩ := isDirectory_eq_true.mp h
  rw [hn]
  rfl

/-- Above an object there are directories all the way. -/
theorem WellFormed.above (ht : t.WellFormed) (hq : (t.lookup q).isSome) {p rest : Path}
    (he : q = p ++ rest) (hrest : rest ≠ []) : t.isDirectory p = true := by
  subst he
  induction rest generalizing p with
  | nil => exact absurd rfl hrest
  | cons name rest ih =>
      -- what stands over an object is a directory, and so an object with one over it in turn
      refine ht.parent p name ?_
      by_cases hnil : rest = []
      · rw [hnil] at hq
        exact hq
      · refine isSome_of_isDirectory (ih hnil ?_)
        rwa [List.append_assoc]

theorem WellFormed.isDirectory_dropLast (ht : t.WellFormed) (h : t.isDirectory here = true) :
    t.isDirectory here.dropLast = true := by
  by_cases hnil : here = []
  · rw [hnil]
    exact ht.root
  · exact ht.above (isSome_of_isDirectory h) (List.dropLast_concat_getLast hnil).symm (by simp)

theorem WellFormed.isCanonical (ht : t.WellFormed) (hq : t.lookup q = some n)
    (hn : ∀ target, n.content ≠ .link target) : t.IsCanonical q :=
  ⟨⟨n, hq, hn⟩, fun _ _ => ht.above (by rw [hq]; rfl)⟩

/-- **A walk from a directory ends at an object's own path.** -/
theorem Leads.isCanonical (h : t.Leads here todo k q) (ht : t.WellFormed)
    (hhere : t.isDirectory here = true) : t.IsCanonical q := by
  induction h with
  | stop =>
      obtain ⟨n, hn, hdir⟩ := isDirectory_eq_true.mp hhere
      exact ht.isCanonical hn fun target => by rw [hdir]; exact Content.noConfusion
  | idle _ ih | stay _ _ ih => exact ih hhere
  | up _ _ ih => exact ih (ht.isDirectory_dropLast hhere)
  | directory he hn _ ih => exact ih (isDirectory_eq_true.mpr ⟨_, he.found, hn⟩)
  | file he hn => exact ht.isCanonical he.found fun target => by rw [hn]; exact Content.noConfusion
  | @link here q name todo k n target he hn _ ih =>
      refine ih ?_
      unfold linkBase
      split
      · exact ht.root
      · exact hhere

/-! ## Realpaths -/

/-- The path of `names` below `root` has `q` for its realpath: the names lead there from the root of
the tree, through no more links than are followed. -/
structure IsRealpath (t : Tree) (root : Path) (names : List Name) (q : Path) : Prop where
  no_zero : ∀ name ∈ names, 0 ∉ name
  leads : ∃ k, k ≤ linkLimit ∧ t.Leads [] (root ++ names.map Name.orDot) k q

variable {root : Path} {names : List Name}

/-- The system's function for realpaths finds them, for names that are not empty. -/
theorem realpath_eq_ok_iff (hnames : ∀ name ∈ names, name ≠ []) :
    t.realpath root names = .ok q ↔ t.IsRealpath root (Name.dot :: names) q := by
  have hmap : (Name.dot :: names).map Name.orDot = Name.dot :: names := by
    refine (List.map_congr_left fun name hmem => ?_).trans (List.map_id _)
    rcases List.mem_cons.mp hmem with rfl | hmem
    · rfl
    · exact if_neg (by simpa using hnames name hmem)
  rw [realpath]
  by_cases hzero : names.any (·.contains 0) = true
  · rw [if_pos hzero]
    obtain ⟨name, hmem, hname⟩ := List.any_eq_true.mp hzero
    constructor
    · intro h
      cases h
    · intro h
      have hnone := h.no_zero name (List.mem_cons_of_mem _ hmem)
      exact absurd (List.contains_iff_mem.mp hname) hnone
  · rw [if_neg hzero, resolve_eq_ok_iff]
    constructor
    · intro h
      refine ⟨?_, by rwa [hmap]⟩
      intro name hmem hz
      rcases List.mem_cons.mp hmem with rfl | hmem
      · exact absurd hz (by decide)
      · exact hzero (List.any_eq_true.mpr ⟨name, hmem, List.contains_iff_mem.mpr hz⟩)
    · intro h
      have hleads := h.leads
      rwa [hmap] at hleads

/-- **A path has the same realpath without the names that name nothing**, where the root is searched
anyway. -/
theorem IsRealpath.drop_idle (h : t.IsRealpath root names q) (hnames : names ≠ []) :
    t.IsRealpath root (Name.dot :: names.filter (!·.isIdle)) q := by
  obtain ⟨k, hk, hleads⟩ := h.leads
  refine ⟨?_, k, hk, ?_⟩
  · intro name hmem
    rcases List.mem_cons.mp hmem with rfl | hmem
    · decide
    · exact h.no_zero name ((List.mem_filter.mp hmem).1)
  · -- the dot that stands for the root comes first, and then every name but the idle ones
    have hfilter : (names.map Name.orDot).filter (!·.isIdle) =
        (names.filter (!·.isIdle)).map Name.orDot := by
      rw [List.filter_map]
      refine congrArg (List.map Name.orDot) (List.filter_congr fun name _ => ?_)
      rw [Function.comp_apply, Name.isIdle_orDot]
    cases names with
    | nil => exact absurd rfl hnames
    | cons name rest =>
        have hdot := Leads.insert_dot name.orDot_ne_nil hleads
        show t.Leads [] (root ++ Name.dot :: _) k q
        rw [← hfilter]
        rw [List.append_cons] at hdot ⊢
        exact hdot.append_congr (fun hnil => by cases hnil) fun _ _ _ h => h.drop_idle

end Tree
end UnionFS
