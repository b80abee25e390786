import UnionFS.Proofs.Tree.Walk

/-!
# What resolving looks up

Following a path looks up one object after another: the names of the path, and those of the links on
the way, wherever they lead.  Take some directory, the root of an export.  As long as nothing is
looked up but what stands on the way to the root, at it or below it, a path is resolved in the same
way in all trees that are the same from the root on (`SameFrom.resolve`).  The first object that is
looked up elsewhere decides: where it is missing the path leads nowhere, and where it is a file the
path leads there or fails in another way (`LooksUp.astray`).
-/

namespace UnionFS

namespace Path

/-- The path is that of the root, of a directory above it, or of something below it. -/
def Near (root p : Path) : Prop := p <+: root ∨ root <+: p

variable {root p : Path}

theorem near_nil : Near root [] := .inl (List.nil_prefix)

theorem Near.dropLast (h : Near root p) : Near root p.dropLast := by
  rcases h with h | h
  · exact .inl ((List.dropLast_prefix p).trans h)
  · exact (List.prefix_or_prefix_of_prefix (List.dropLast_prefix p) h)

/-- What is next to the way to the root hangs from a directory on the way. -/
theorem Near.prefix_of_not {name : Name} (h : Near root p) (hnot : ¬ Near root (p ++ [name])) :
    p <+: root := by
  rcases h with h | h
  · exact h
  · exact absurd (.inr (h.trans (List.prefix_append p [name]))) hnot

end Path

namespace Tree

open UnionFS.Path

/-- Following names from a directory, through at most so many links, something is looked up. -/
inductive LooksUp (t : Tree) : Nat → Path → List Name → Path → Prop where
  /-- A name that no object can have need not be looked up. -/
  | name {links : Nat} {here : Path} {name : Name} {todo : List Name} :
    name.IsPlain → t.searchable here = true → LooksUp t links here (name :: todo) (here ++ [name])
  | idle {links : Nat} {here p : Path} {todo : List Name} :
    LooksUp t links here todo p → LooksUp t links here ([] :: todo) p
  | stay {links : Nat} {here p : Path} {todo : List Name} :
    t.searchable here = true → LooksUp t links here todo p →
      LooksUp t links here (Name.dot :: todo) p
  | up {links : Nat} {here p : Path} {todo : List Name} :
    t.searchable here = true → LooksUp t links here.dropLast todo p →
      LooksUp t links here (Name.dotDot :: todo) p
  | directory {links : Nat} {here p : Path} {name : Name} {todo : List Name} {n : Node} :
    t.Enters here name n → n.content = .directory → LooksUp t links (here ++ [name]) todo p →
      LooksUp t links here (name :: todo) p
  | link {links : Nat} {here p : Path} {name : Name} {todo : List Name} {n : Node}
    {target : Bytes} :
    t.Enters here name n → n.content = .link target →
      LooksUp t links (linkBase here target) (Text.pieces (· == Name.slash) target ++ todo) p →
      LooksUp t (links + 1) here (name :: todo) p

/-- The root is a directory, and all directories on the way to it may be searched. -/
def Open (t : Tree) (root : Path) : Prop :=
  ∀ p, p <+: root → t.isDirectory p = true ∧ t.searchable p = true

/-- The trees are the same from the root on, for the same process, and in both the root can be come
to. -/
structure SameFrom (root : Path) (t t' : Tree) : Prop where
  wellFormed : t.WellFormed
  wellFormed' : t'.WellFormed
  opened : t.Open root
  opened' : t'.Open root
  privileged : t.privileged = t'.privileged
  lookup : ∀ p, root <+: p → t.lookup p = t'.lookup p

variable {t t' : Tree} {root here p : Path} {name : Name} {todo : List Name} {links : Nat} {n : Node}

theorem Enters.isPlain (h : t.Enters here name n) (ht : t.WellFormed) : name.IsPlain :=
  ht.plain here name (by rw [h.found]; rfl)

/-- Where the process may search a directory, a name leads to the object that stands there. -/
theorem WellFormed.enters (ht : t.WellFormed) (hsearch : t.searchable here = true)
    (hn : t.lookup (here ++ [name]) = some n) : t.Enters here name n := by
  have hplain := ht.plain here name (by rw [hn]; rfl)
  exact ⟨⟨hplain.ne_nil, hplain.ne_dot, hplain.ne_dotDot⟩, hsearch, hplain.short, hn⟩

/-- A link is followed from near the root again. -/
theorem near_linkBase (h : Near root here) (target : Bytes) :
    Near root (linkBase here target) := by
  unfold linkBase
  split
  · exact near_nil
  · exact h

/-- A name that leads somewhere is looked up. -/
theorem Enters.looksUp (h : t.Enters here name n) (ht : t.WellFormed) :
    t.LooksUp links here (name :: todo) (here ++ [name]) :=
  .name (h.isPlain ht) h.searched

/-! ## The way to the root -/

/-- A name that is no link and not the last leads to a directory. -/
theorem Leads.of_standing {k : Nat} {q : Path} (h : t.Leads here (name :: todo) k q)
    (htodo : todo ≠ []) (hname : name.IsPlain)
    (hlink : ∀ n, t.lookup (here ++ [name]) = some n → ∀ target, n.content ≠ .link target) :
    t.isDirectory (here ++ [name]) = true ∧ t.Leads (here ++ [name]) todo k q := by
  cases h with
  | idle => exact absurd rfl hname.ne_nil
  | stay => exact absurd rfl hname.ne_dot
  | up => exact absurd rfl hname.ne_dotDot
  | directory he hn hrest => exact ⟨isDirectory_eq_true.mpr ⟨_, he.found, hn⟩, hrest⟩
  | file => exact absurd rfl htodo
  | link he hn => exact absurd hn (hlink _ he.found _)

/-- Where the root is found by its own path, the way to it is open. -/
theorem open_of_realpath (ht : t.WellFormed) (h : t.realpath root [] = .ok root) :
    t.Open root := by
  have hresolve : t.resolve linkLimit [] (root ++ [Name.dot]) = .ok root := h
  obtain ⟨k, -, hleads⟩ := resolve_eq_ok_iff.mp hresolve
  have hcanonical := hleads.isCanonical ht ht.root
  -- nothing on the way is a link, as directories stand above the root and the root is none
  have hlink : ∀ p, p <+: root → ∀ n, t.lookup p = some n → ∀ target, n.content ≠ .link target := by
    rintro p ⟨rest, hrest⟩ n hn target hcontent
    by_cases hnil : rest = []
    · obtain ⟨m, hm, hno⟩ := hcanonical.standing
      rw [hnil, List.append_nil] at hrest
      rw [← hrest, hn] at hm
      exact hno target (Option.some.inj hm ▸ hcontent)
    · obtain ⟨m, hm, hdir⟩ := isDirectory_eq_true.mp (hcanonical.above p rest hrest.symm hnil)
      rw [hn] at hm
      rw [← Option.some.inj hm, hcontent] at hdir
      cases hdir
  -- by induction on what is left of the way
  have key : ∀ (rest here : Path) (k : Nat), here ++ rest = root → t.isDirectory here = true →
      t.Leads here (rest ++ [Name.dot]) k root →
        ∀ p, here <+: p → p <+: root → t.isDirectory p = true ∧ t.searchable p = true := by
    intro rest
    induction rest with
    | nil =>
        intro here k hroot hdir hleads p hp hpr
        rw [← hroot, List.append_nil] at hpr
        rw [← hp.eq_of_length_le hpr.length_le]
        exact ⟨hdir, hleads.searchable (by decide)⟩
    | cons name rest ih =>
        intro here k hroot hdir hleads p hp hpr
        have hnext : here ++ [name] ++ rest = root := by
          rw [List.append_assoc]
          exact hroot
        have hstands : (t.lookup (here ++ [name])).isSome := by
          obtain ⟨n, hn, -⟩ := hcanonical.standing
          by_cases hnil : rest = []
          · rw [hnil, List.append_nil] at hnext
            rw [hnext, hn]
            rfl
          · exact isSome_of_isDirectory (hcanonical.above _ rest hnext.symm hnil)
        have hplain := ht.plain here name hstands
        by_cases hhere : p = here
        · rw [hhere]
          exact ⟨hdir, hleads.searchable hplain.ne_nil⟩
        · obtain ⟨hdir', hleads'⟩ := hleads.of_standing (by simp) hplain
            (hlink _ ⟨rest, hnext⟩)
          refine ih (here ++ [name]) k hnext hdir' hleads' p ?_ hpr
          refine List.prefix_of_prefix_length_le ⟨rest, hnext⟩ hpr ?_
          have hlt := hp.length_le
          rw [List.length_append, List.length_singleton]
          have hne : here.length ≠ p.length := fun he => hhere (hp.eq_of_length he).symm
          omega
  exact fun p hp => key root [] k rfl ht.root hleads p List.nil_prefix hp

/-! ## The same from the root on -/

namespace SameFrom

theorem symm (h : t.SameFrom root t') : t'.SameFrom root t where
  wellFormed := h.wellFormed'
  wellFormed' := h.wellFormed
  opened := h.opened'
  opened' := h.opened
  privileged := h.privileged.symm
  lookup p hp := (h.lookup p hp).symm

theorem trans {t'' : Tree} (h : t.SameFrom root t') (h' : t'.SameFrom root t'') :
    t.SameFrom root t'' where
  wellFormed := h.wellFormed
  wellFormed' := h'.wellFormed'
  opened := h.opened
  opened' := h'.opened'
  privileged := h.privileged.trans h'.privileged
  lookup p hp := (h.lookup p hp).trans (h'.lookup p hp)

/-- The same directories may be searched. -/
theorem searchable (h : t.SameFrom root t') (hhere : Near root here) :
    t.searchable here = t'.searchable here := by
  rcases hhere with hhere | hhere
  · rw [(h.opened here hhere).2, (h.opened' here hhere).2]
  · rw [Tree.searchable, Tree.searchable, h.lookup here hhere]
    unfold grants
    rw [h.privileged]

/-- What stands near the root in one tree stands there in the other, as the same kind of object. -/
theorem found (h : t.SameFrom root t') (hp : Near root p) (hn : t.lookup p = some n) :
    ∃ m, t'.lookup p = some m ∧ m.content = n.content := by
  rcases hp with hp | hp
  · obtain ⟨n', hn', hdir⟩ := isDirectory_eq_true.mp (h.opened p hp).1
    obtain ⟨m, hm, hdir'⟩ := isDirectory_eq_true.mp (h.opened' p hp).1
    rw [hn] at hn'
    exact ⟨m, hm, by rw [hdir', Option.some.inj hn', hdir]⟩
  · exact ⟨n, (h.lookup p hp).symm.trans hn, rfl⟩

/-- What is missing near the root in one tree is missing in the other. -/
theorem missing (h : t.SameFrom root t') (hp : Near root p) (hn : t.lookup p = none) :
    t'.lookup p = none := by
  rcases hp with hp | hp
  · obtain ⟨n, hn', -⟩ := isDirectory_eq_true.mp (h.opened p hp).1
    rw [hn] at hn'
    cases hn'
  · exact (h.lookup p hp).symm.trans hn

/-- A name leads to objects of the same kind. -/
theorem enters (h : t.SameFrom root t') (hhere : Near root here) (hp : Near root (here ++ [name]))
    (he : t.Enters here name n) : ∃ m, t'.Enters here name m ∧ m.content = n.content := by
  obtain ⟨m, hm, hcontent⟩ := h.found hp he.found
  refine ⟨m, ⟨he.proper, ?_, he.short, hm⟩, hcontent⟩
  rw [← h.searchable hhere]
  exact he.searched

/-- A name that leads nowhere does so in both trees, if what it would lead to is near the root
wherever it is looked up. -/
theorem child_error {c : Code} (h : t.SameFrom root t')
    (hp : name.IsPlain → Near root (here ++ [name])) (hc : t.child here name = .error c) :
    t'.child here name = .error c := by
  unfold child at hc ⊢
  split
  · next hlong => rwa [if_pos hlong] at hc
  · next hshort =>
    rw [if_neg hshort] at hc
    cases hn : t.lookup (here ++ [name]) with
    | some n =>
        rw [hn] at hc
        cases hc
    | none =>
        rw [hn] at hc
        have hnone : t'.lookup (here ++ [name]) = none := by
          by_cases hplain : name.IsPlain
          · exact h.missing (hp hplain) hn
          · -- there is no such object in any tree
            cases hm : t'.lookup (here ++ [name]) with
            | none => rfl
            | some m => exact absurd (h.wellFormed'.plain here name (by rw [hm]; rfl)) hplain
        rw [hnone]
        exact hc

/-- **A path is resolved in the same way if nothing is looked up but near the root.** -/
theorem resolve (h : t.SameFrom root t') (hhere : Near root here)
    (hnear : ∀ p, t.LooksUp links here todo p → Near root p) :
    t.resolve links here todo = t'.resolve links here todo := by
  have step {here : Path} {name : Name} {n : Node} {todo : List Name} {links : Nat}
      (hhere : Near root here) (hnear : ∀ p, t.LooksUp links here (name :: todo) p → Near root p)
      (he : t.Enters here name n) : ∃ m, t'.Enters here name m ∧ m.content = n.content :=
    h.enters hhere (hnear _ (he.looksUp h.wellFormed)) he
  -- the function decides in the same way on both trees; `n` and `m` are what a name leads to
  fun_induction t.resolve links here todo
  case case1 => rw [Tree.resolve]
  case case2 links here name todo hname ih =>
    rw [List.isEmpty_iff.mp hname] at hnear ⊢
    rw [ih hhere fun p hp => hnear p (.idle hp), resolve_idle]
  case case3 links here name todo hname hsearch =>
    rw [h.searchable hhere] at hsearch
    rw [Tree.resolve, if_neg hname, if_pos hsearch]
  case case4 links here name todo hname hsearch hdot ih =>
    have hsearch : t.searchable here = true := by simpa using hsearch
    rw [eq_of_beq hdot] at hnear ⊢
    rw [ih hhere fun p hp => hnear p (.stay hsearch hp),
      resolve_dot (h.searchable hhere ▸ hsearch)]
  case case5 links here name todo hname hsearch hdot hdotDot ih =>
    have hsearch : t.searchable here = true := by simpa using hsearch
    rw [eq_of_beq hdotDot] at hnear ⊢
    rw [ih hhere.dropLast fun p hp => hnear p (.up hsearch hp),
      resolve_dotDot (h.searchable hhere ▸ hsearch)]
  case case6 links here name todo hname hsearch hdot hdotDot c hchild =>
    have hchild' := h.child_error
      (fun hplain => hnear _ (.name hplain (by simpa using hsearch))) hchild
    rw [h.searchable hhere] at hsearch
    rw [Tree.resolve, if_neg hname, if_neg hsearch, if_neg hdot, if_neg hdotDot, hchild']
  case case7 links here name todo hname hsearch hdot hdotDot n hchild hn ih =>
    have he := enters_of_checks hname hsearch hdot hdotDot hchild
    obtain ⟨m, he', hm⟩ := step hhere hnear he
    rw [ih (hnear _ (he.looksUp h.wellFormed)) fun p hp => hnear p (.directory he hn hp),
      resolve_of_enters he', hm, hn]
  case case8 links here name todo hname hsearch hdot hdotDot n hchild data hn htodo =>
    obtain ⟨m, he', hm⟩ := step hhere hnear (enters_of_checks hname hsearch hdot hdotDot hchild)
    rw [resolve_of_enters he', hm, hn]
    exact (if_pos htodo).symm
  case case9 links here name todo hname hsearch hdot hdotDot n hchild data hn htodo =>
    obtain ⟨m, he', hm⟩ := step hhere hnear (enters_of_checks hname hsearch hdot hdotDot hchild)
    rw [resolve_of_enters he', hm, hn]
    exact (if_neg htodo).symm
  case case10 here name todo hname hsearch hdot hdotDot n hchild target hn =>
    obtain ⟨m, he', hm⟩ := step hhere hnear (enters_of_checks hname hsearch hdot hdotDot hchild)
    rw [resolve_of_enters he', hm, hn]
  case case11 here name todo hname hsearch hdot hdotDot n hchild target hn links ih =>
    have he := enters_of_checks hname hsearch hdot hdotDot hchild
    obtain ⟨m, he', hm⟩ := step hhere hnear he
    rw [dite_eq_ite] at ih
    rw [resolve_of_enters he', hm, hn]
    exact ih (near_linkBase hhere target) fun p hp => hnear p (.link he hn hp)

end SameFrom

/-! ## Astray -/

/-- Whether there is an object at `p` decides what the names come to: without it they lead nowhere,
and to a file they lead, or fail as a file is no directory. -/
structure Hinges (t : Tree) (links : Nat) (here : Path) (todo : List Name) (p : Path) : Prop where
  missing : t.lookup p = none → t.resolve links here todo = .error .notFound
  file : ∀ n data, t.lookup p = some n → n.content = .file data →
    t.resolve links here todo = .ok p ∨ t.resolve links here todo = .error .notDirectory

theorem hinges_name (hname : name.IsPlain) (hsearch : t.searchable here = true) :
    t.Hinges links here (name :: todo) (here ++ [name]) where
  missing hnone := by
    have hshort : ¬ Name.limit < name.length := Nat.not_lt.mpr hname.short
    rw [Tree.resolve, if_neg (by simpa using hname.ne_nil), if_neg (by simpa using hsearch),
      if_neg (by simpa using hname.ne_dot), if_neg (by simpa using hname.ne_dotDot), child,
      if_neg hshort, hnone]
  file n data hfound hn := by
    have he : t.Enters here name n :=
      ⟨⟨hname.ne_nil, hname.ne_dot, hname.ne_dotDot⟩, hsearch, hname.short, hfound⟩
    rw [resolve_of_enters he, hn]
    dsimp only
    split
    · exact .inl rfl
    · exact .inr rfl

/-- The place is next to the way to the root, for a name that an object can have. -/
structure Beside (root p : Path) : Prop where
  far : ¬ Near root p
  hangs : ∃ above name, p = above ++ [name] ∧ above <+: root ∧ name.IsPlain

/-- Following the names comes to a place beside the way to the root, and what is there decides, in all
trees that are the same from the root on. -/
def Astray (t : Tree) (root : Path) (links : Nat) (here : Path) (todo : List Name) : Prop :=
  ∃ p, Beside root p ∧ ∀ t', t.SameFrom root t' → t'.Hinges links here todo p

theorem Astray.of_eq {links' : Nat} {here' : Path} {todo' : List Name}
    (h : t.Astray root links' here' todo')
    (heq : ∀ t', t.SameFrom root t' →
      t'.resolve links here todo = t'.resolve links' here' todo') :
    t.Astray root links here todo := by
  obtain ⟨p, hp, hsame⟩ := h
  refine ⟨p, hp, fun t' ht' => ⟨?_, ?_⟩⟩
  · rw [heq t' ht']
    exact (hsame t' ht').missing
  · rw [heq t' ht']
    exact (hsame t' ht').file

/-- **Where something is looked up that is not near the root, the first such object decides.** -/
theorem LooksUp.astray (h : t.LooksUp links here todo p) (ht : t.WellFormed)
    (hhere : Near root here) (hp : ¬ Near root p) : t.Astray root links here todo := by
  -- a name that is looked up away from the root is the first of them
  have first {links : Nat} {here : Path} {name : Name} {todo : List Name}
      (hhere : Near root here) (hname : name.IsPlain) (hsearch : t.searchable here = true)
      (hp : ¬ Near root (here ++ [name])) : t.Astray root links here (name :: todo) :=
    ⟨here ++ [name], ⟨hp, here, name, rfl, hhere.prefix_of_not hp, hname⟩, fun t' hsame =>
      hinges_name hname (hsame.searchable hhere ▸ hsearch)⟩
  induction h with
  | name hname hsearch => exact first hhere hname hsearch hp
  | idle _ ih => exact (ih hhere hp).of_eq fun _ _ => resolve_idle
  | stay hsearch _ ih =>
      refine (ih hhere hp).of_eq fun t' hsame => resolve_dot ?_
      exact hsame.searchable hhere ▸ hsearch
  | up hsearch _ ih =>
      refine (ih hhere.dropLast hp).of_eq fun t' hsame => resolve_dotDot ?_
      exact hsame.searchable hhere ▸ hsearch
  | @directory links here p name todo n he hn _ ih =>
      by_cases hnear : Near root (here ++ [name])
      · refine (ih hnear hp).of_eq fun t' hsame => ?_
        obtain ⟨m, he', hm⟩ := hsame.enters hhere hnear he
        rw [resolve_of_enters he', hm, hn]
      · exact first hhere (he.isPlain ht) he.searched hnear
  | @link links here p name todo n target he hn _ ih =>
      by_cases hnear : Near root (here ++ [name])
      · refine (ih (near_linkBase hhere target) hp).of_eq fun t' hsame => ?_
        obtain ⟨m, he', hm⟩ := hsame.enters hhere hnear he
        rw [resolve_of_enters he', hm, hn]
      · exact first hhere (he.isPlain ht) he.searched hnear

/-! ## Without links -/

/-- There is no link at the root or below it. -/
def Linkless (t : Tree) (root : Path) : Prop :=
  ∀ p n target, root <+: p → t.lookup p = some n → n.content ≠ .link target

/-- Without links, and names that lead upwards, what is below the root is not left. -/
theorem LooksUp.prefix_of_linkless (h : t.LooksUp links here todo p) (hno : t.Linkless root)
    (hhere : root <+: here) (hdown : Name.dotDot ∉ todo) : root <+: p := by
  induction h with
  | name => exact hhere.trans (List.prefix_append _ _)
  | idle _ ih => exact ih hhere fun hmem => hdown (List.mem_cons_of_mem _ hmem)
  | stay _ _ ih => exact ih hhere fun hmem => hdown (List.mem_cons_of_mem _ hmem)
  | up => exact absurd List.mem_cons_self hdown
  | directory _ _ _ ih =>
      exact ih (hhere.trans (List.prefix_append _ _)) fun hmem => hdown (List.mem_cons_of_mem _ hmem)
  | link he hn => exact absurd hn (hno _ _ _ (hhere.trans (List.prefix_append _ _)) he.found)

/-- The way to the root has no links and leads to it. -/
theorem LooksUp.near_of_open {rest : List Name} (h : t.LooksUp links here (rest ++ todo) p)
    (ht : t.WellFormed) (hopen : t.Open root) (hroot : here ++ rest = root)
    (hbelow : t.LooksUp links root todo p → Near root p) : Near root p := by
  induction rest generalizing here with
  | nil =>
      rw [List.append_nil] at hroot
      rw [hroot, List.nil_append] at h
      exact hbelow h
  | cons name rest ih =>
      have hnext : here ++ [name] ++ rest = root := by
        rw [List.append_assoc]
        exact hroot
      obtain ⟨n, hn, hdir⟩ := isDirectory_eq_true.mp (hopen (here ++ [name]) ⟨rest, hnext⟩).1
      have hplain := ht.plain here name (by rw [hn]; rfl)
      cases h with
      | name => exact .inl ⟨rest, hnext⟩
      | idle => exact absurd rfl hplain.ne_nil
      | stay => exact absurd rfl hplain.ne_dot
      | up => exact absurd rfl hplain.ne_dotDot
      | directory _ _ hrest => exact ih hrest hnext
      | link he hlink =>
          have hsame := he.found
          rw [hn] at hsame
          rw [← Option.some.inj hsame, hdir] at hlink
          cases hlink

end Tree
end UnionFS
