import UnionFS.Proofs.Tree.Walk

/-!
# What resolving looks at

Resolving a path looks at the kinds of the objects on the way, at the targets of links and at who
may search the directories.  It does not look into files: trees of the same outline resolve all
paths in the same way, refusals included (`resolve_congr`), and writing to a file keeps the outline
(`SameOutline.modify`).
-/

namespace UnionFS

namespace Node

/-- An object without the data and the times. -/
def outline (n : Node) : Node :=
  { n with
    content := match n.content with
      | .file _ => .file []
      | content => content
    atime := 0
    mtime := 0
    ctime := 0 }

theorem mode_outline (n : Node) : n.outline.mode = n.mode := by
  cases n with | mk content => cases content <;> rfl

theorem isDirectory_outline (n : Node) : n.outline.isDirectory = n.isDirectory := by
  cases n with | mk content => cases content <;> rfl

theorem outline_overlay (n : Node) (offset : Nat) (data : Bytes) :
    (n.overlay offset data).outline = n.outline := by
  cases n with | mk content => cases content <;> rfl

/-- The objects are of the same kind, and links have the same target. -/
def Like (n m : Node) : Prop :=
  match n.content with
  | .file _ => ∃ data, m.content = .file data
  | content => m.content = content

theorem like_of_outline {n m : Node} (h : n.outline = m.outline) : n.Like m := by
  have hc := congrArg Node.content h
  cases n with
  | mk content =>
      cases m with
      | mk content' =>
          cases content <;> cases content' <;> simp_all [outline, Like]

end Node

namespace Tree

/-- The trees differ at most in the data of files and in times. -/
structure SameOutline (t t' : Tree) : Prop where
  privileged : t.privileged = t'.privileged
  outline : ∀ p, (t.lookup p).map Node.outline = (t'.lookup p).map Node.outline

variable {t t' : Tree} {here : Path} {name : Name} {todo : List Name} {links : Nat} {n : Node}

theorem SameOutline.modify (h : t.SameOutline t') (q : Path) (offset : Nat) (data : Bytes) :
    (t.modify q (·.overlay offset data)).SameOutline t' := by
  refine ⟨h.privileged, fun p => ?_⟩
  rw [lookup_modify, ← h.outline p]
  by_cases hp : p = q
  · rw [if_pos hp, Option.map_map]
    exact congrArg (Option.map · (t.lookup p)) (funext fun n => n.outline_overlay offset data)
  · rw [if_neg hp]

theorem SameOutline.refl (t : Tree) : t.SameOutline t := ⟨rfl, fun _ => rfl⟩

theorem SameOutline.trans {t'' : Tree} (h : t.SameOutline t') (h' : t'.SameOutline t'') :
    t.SameOutline t'' :=
  ⟨h.privileged.trans h'.privileged, fun p => (h.outline p).trans (h'.outline p)⟩

theorem SameOutline.symm (h : t.SameOutline t') : t'.SameOutline t :=
  ⟨h.privileged.symm, fun p => (h.outline p).symm⟩

theorem grants_congr {m : Node} (h : t.SameOutline t') (hn : n.outline = m.outline)
    (mask : UInt32) : t.grants n mask = t'.grants m mask := by
  have hmode : n.mode = m.mode := by rw [← n.mode_outline, hn, m.mode_outline]
  have howner : n.outline.owner = m.outline.owner := congrArg Node.owner hn
  have hgroup : n.outline.group = m.outline.group := congrArg Node.group hn
  rw [grants, grants, h.privileged, hmode, show n.owner = m.owner from howner,
    show n.group = m.group from hgroup]

/-- What stands at a path in one of the trees stands there in the other, but for data and times. -/
theorem SameOutline.lookup (h : t.SameOutline t') {p : Path} (hn : t.lookup p = some n) :
    ∃ m, t'.lookup p = some m ∧ n.outline = m.outline := by
  have hp := h.outline p
  rw [hn] at hp
  obtain ⟨m, hm, hmn⟩ := Option.map_eq_some_iff.mp hp.symm
  exact ⟨m, hm, hmn.symm⟩

theorem searchable_congr (h : t.SameOutline t') (here : Path) :
    t.searchable here = t'.searchable here := by
  unfold searchable
  cases hn : t.lookup here with
  | some n =>
      obtain ⟨m, hm, hnm⟩ := h.lookup hn
      rw [hm]
      exact grants_congr h hnm _
  | none =>
      have hp := h.outline here
      rw [hn] at hp
      rw [Option.map_eq_none_iff.mp hp.symm]
      rfl

/-- A name leads to like objects in both trees. -/
theorem SameOutline.enters (h : t.SameOutline t') (he : t.Enters here name n) :
    ∃ m, t'.Enters here name m ∧ n.Like m := by
  obtain ⟨m, hm, hnm⟩ := h.lookup he.found
  refine ⟨m, ⟨he.proper, ?_, he.short, hm⟩, Node.like_of_outline hnm⟩
  rw [← searchable_congr h]
  exact he.searched

theorem child_congr_error {c : Code} (h : t.SameOutline t') (hc : t.child here name = .error c) :
    t'.child here name = .error c := by
  unfold child at hc ⊢
  split
  · next hlen => rwa [if_pos hlen] at hc
  · next hlen =>
    rw [if_neg hlen] at hc
    cases hm : t'.lookup (here ++ [name]) with
    | none =>
        have hp := h.outline (here ++ [name])
        rw [hm] at hp
        rw [Option.map_eq_none_iff.mp hp] at hc
        exact hc
    | some m =>
        obtain ⟨n, hn, -⟩ := h.symm.lookup hm
        rw [hn] at hc
        cases hc

/-- **Trees of the same outline resolve all paths in the same way.** -/
theorem resolve_congr (h : t.SameOutline t') :
    t.resolve links here todo = t'.resolve links here todo := by
  -- the function decides in the same way on both trees; `n` and `m` are what a name leads to
  fun_induction t.resolve links here todo
  case case1 => rw [resolve]
  case case2 links here name todo hname ih =>
    rw [ih, List.isEmpty_iff.mp hname, resolve_idle]
  case case3 links here name todo hname hsearch =>
    rw [searchable_congr h] at hsearch
    rw [resolve, if_neg hname, if_pos hsearch]
  case case4 links here name todo hname hsearch hdot ih =>
    rw [searchable_congr h] at hsearch
    rw [ih, eq_of_beq hdot, resolve_dot (by simpa using hsearch)]
  case case5 links here name todo hname hsearch hdot hdotDot ih =>
    rw [searchable_congr h] at hsearch
    rw [ih, eq_of_beq hdotDot, resolve_dotDot (by simpa using hsearch)]
  case case6 links here name todo hname hsearch hdot hdotDot c hchild =>
    rw [searchable_congr h] at hsearch
    rw [resolve, if_neg hname, if_neg hsearch, if_neg hdot, if_neg hdotDot,
      child_congr_error h hchild]
  case case7 links here name todo hname hsearch hdot hdotDot n hchild hn ih =>
    obtain ⟨m, he, hm⟩ := h.enters (enters_of_checks hname hsearch hdot hdotDot hchild)
    rw [Node.Like, hn] at hm
    rw [ih, resolve_of_enters he, hm]
  case case8 links here name todo hname hsearch hdot hdotDot n hchild data hn htodo =>
    obtain ⟨m, he, hm⟩ := h.enters (enters_of_checks hname hsearch hdot hdotDot hchild)
    rw [Node.Like, hn] at hm
    obtain ⟨data', hm⟩ := hm
    rw [resolve_of_enters he, hm]
    exact (if_pos htodo).symm
  case case9 links here name todo hname hsearch hdot hdotDot n hchild data hn htodo =>
    obtain ⟨m, he, hm⟩ := h.enters (enters_of_checks hname hsearch hdot hdotDot hchild)
    rw [Node.Like, hn] at hm
    obtain ⟨data', hm⟩ := hm
    rw [resolve_of_enters he, hm]
    exact (if_neg htodo).symm
  case case10 here name todo hname hsearch hdot hdotDot n hchild target hn =>
    obtain ⟨m, he, hm⟩ := h.enters (enters_of_checks hname hsearch hdot hdotDot hchild)
    rw [Node.Like, hn] at hm
    rw [resolve_of_enters he, hm]
  case case11 here name todo hname hsearch hdot hdotDot n hchild target hn links ih =>
    obtain ⟨m, he, hm⟩ := h.enters (enters_of_checks hname hsearch hdot hdotDot hchild)
    rw [Node.Like, hn] at hm
    rw [dite_eq_ite] at ih
    rw [ih, resolve_of_enters he, hm]
    rfl

theorem realpath_congr (h : t.SameOutline t') (root : Path) (names : List Name) :
    t.realpath root names = t'.realpath root names := by
  rw [realpath, realpath, resolve_congr h]

theorem find_congr (h : t.SameOutline t') (path : Bytes) : t.find path = t'.find path := by
  simp only [find, realpath_congr h]

end Tree
end UnionFS
