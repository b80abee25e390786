import UnionFS.Proofs.Tree.Sight

/-!
# Trees that differ in one place

Taking an object away and putting one where there is none keep a tree well-formed, and all other
objects as they were.  So a place next to the way to the root tells nothing of the trees that are the
same from the root on: one of them has nothing there (`Open.sameFrom_without`), and one a file
(`Open.sameFrom_put`).
-/

namespace UnionFS

open UnionFS.Path

namespace Tree

variable {t t' : Tree} {root above p q : Path} {name : Name} {n : Node}

/-- A tree without an object and what is below it. -/
def without (t : Tree) (p : Path) : Tree :=
  { t with nodes := t.nodes.filter fun x => !p.isPrefixOf x.1 }

theorem lookup_without : (t.without p).lookup q = if p <+: q then none else t.lookup q := by
  rw [without, lookup_filter t (fun x => !p.isPrefixOf x)]
  by_cases hp : p <+: q
  · rw [if_pos hp, List.isPrefixOf_iff_prefix.mpr hp]
    rfl
  · rw [if_neg hp, Bool.eq_false_iff.mpr (mt List.isPrefixOf_iff_prefix.mp hp)]
    rfl

theorem lookup_without_of_not (h : ¬ p <+: q) : (t.without p).lookup q = t.lookup q := by
  rw [lookup_without, if_neg h]

theorem isDirectory_congr (h : t.lookup p = t'.lookup p) : t.isDirectory p = t'.isDirectory p := by
  rw [isDirectory, isDirectory, h]

theorem WellFormed.without (ht : t.WellFormed) (hp : p ≠ []) : (t.without p).WellFormed := by
  have kept {q : Path} (hq : ((t.without p).lookup q).isSome) :
      ¬ p <+: q ∧ (t.lookup q).isSome := by
    rw [lookup_without] at hq
    split at hq
    · cases hq
    · next hnot => exact ⟨hnot, hq⟩
  refine ⟨?_, ?_, fun q name hq => ?_, fun q name hq => ht.plain q name (kept hq).2⟩
  · exact ht.distinct.sublist (List.filter_sublist.map _)
  · rw [isDirectory_congr (lookup_without_of_not fun h => hp (List.prefix_nil.mp h))]
    exact ht.root
  · obtain ⟨hnot, hsome⟩ := kept hq
    have hnot' : ¬ p <+: q := fun h => hnot (h.trans (List.prefix_append q [name]))
    rw [isDirectory_congr (lookup_without_of_not hnot')]
    exact ht.parent q name hsome

theorem WellFormed.put (ht : t.WellFormed) (hdir : t.isDirectory above = true)
    (hname : name.IsPlain) (hnone : t.lookup (above ++ [name]) = none) (n : Node) :
    (t.put (above ++ [name]) n).WellFormed := by
  have elsewhere {q : Path} (hq : q ≠ above ++ [name]) :
      (t.put (above ++ [name]) n).lookup q = t.lookup q := by
    rw [lookup_put, if_neg hq]
  have hnodes : (t.put (above ++ [name]) n).nodes = t.nodes ++ [(above ++ [name], n)] := by
    rw [Tree.put, if_neg (by simp [hnone])]
  have hroot : (t.put (above ++ [name]) n).isDirectory above = true := by
    rw [isDirectory_congr (elsewhere (by simp)), hdir]
  refine ⟨?_, ?_, fun q last hq => ?_, fun q last hq => ?_⟩
  · rw [hnodes, List.map_append, List.nodup_append]
    refine ⟨ht.distinct, by simp, ?_⟩
    intro q hq q' hq' heq
    obtain ⟨⟨q, m⟩, hm, rfl⟩ := List.mem_map.mp hq
    rw [List.map_singleton, List.mem_singleton] at hq'
    have hfound := (lookup_eq_some_iff ht).mpr hm
    rw [show q = above ++ [name] from heq.trans hq', hnone] at hfound
    cases hfound
  · rw [isDirectory_congr (elsewhere (by simp)), ht.root]
  · by_cases heq : q ++ [last] = above ++ [name]
    · rw [(List.append_inj' heq rfl).1]
      exact hroot
    · rw [elsewhere heq] at hq
      have hparent := ht.parent q last hq
      rw [isDirectory_congr (elsewhere ?_), hparent]
      rintro rfl
      rw [isDirectory, hnone] at hparent
      cases hparent
  · by_cases heq : q ++ [last] = above ++ [name]
    · rw [List.singleton_inj.mp (List.append_inj' heq rfl).2]
      exact hname
    · rw [elsewhere heq] at hq
      exact ht.plain q last hq

/-! ## From the root on -/

/-- What is not near the root is not above anything that is. -/
theorem not_prefix_of_near (hfar : ¬ Near root p) (hq : Near root q) : ¬ p <+: q := by
  intro hpq
  rcases hq with hq | hq
  · exact hfar (.inl (hpq.trans hq))
  · exact hfar (List.prefix_or_prefix_of_prefix hpq hq)

/-- A tree with the same objects near the root is the same from the root on. -/
theorem Open.sameFrom (h : t.Open root) (ht : t.WellFormed) (ht' : t'.WellFormed)
    (hprivileged : t.privileged = t'.privileged)
    (hnear : ∀ p, Near root p → t.lookup p = t'.lookup p) : t.SameFrom root t' := by
  refine ⟨ht, ht', h, fun p hp => ?_, hprivileged, fun p hp => hnear p (.inr hp)⟩
  have hp' := hnear p (.inl hp)
  obtain ⟨hdir, hsearch⟩ := h p hp
  refine ⟨isDirectory_congr hp' ▸ hdir, ?_⟩
  rw [searchable, hp'] at hsearch
  rw [searchable]
  unfold grants at hsearch ⊢
  rwa [hprivileged] at hsearch

theorem Open.sameFrom_without (h : t.Open root) (ht : t.WellFormed) (hfar : ¬ Near root p) :
    t.SameFrom root (t.without p) := by
  have hp : p ≠ [] := by
    rintro rfl
    exact hfar near_nil
  refine h.sameFrom ht (ht.without hp) rfl fun q hq => ?_
  rw [lookup_without_of_not (not_prefix_of_near hfar hq)]

theorem privileged_put (t : Tree) (p : Path) (n : Node) : (t.put p n).privileged = t.privileged := by
  unfold Tree.put
  split <;> rfl

theorem Open.sameFrom_put (h : t.Open root) (ht : t.WellFormed) (hp : Beside root p)
    (hnone : t.lookup p = none) (n : Node) : t.SameFrom root (t.put p n) := by
  obtain ⟨above, name, rfl, habove, hname⟩ := hp.hangs
  refine h.sameFrom ht (ht.put (h above habove).1 hname hnone n) ?_ fun q hq => ?_
  · rw [privileged_put]
  · rw [lookup_put, if_neg]
    rintro rfl
    exact hp.far hq

/-- Where the way to the root is open, the root is found by its own path. -/
theorem Open.realpath (h : t.Open root) (ht : t.WellFormed) :
    t.realpath root [] = .ok root := by
  show t.resolve linkLimit [] (root ++ [Name.dot]) = .ok root
  have key : ∀ rest here : Path, here ++ rest = root →
      t.resolve linkLimit here (rest ++ [Name.dot]) = .ok root := by
    intro rest
    induction rest with
    | nil =>
        intro here hroot
        rw [List.append_nil] at hroot
        rw [List.nil_append, resolve_dot (h here ⟨[], by simp [hroot]⟩).2, resolve, hroot]
    | cons name rest ih =>
        intro here hroot
        have hnext : here ++ [name] ++ rest = root := by
          rw [List.append_assoc]
          exact hroot
        obtain ⟨m, hm, hdir⟩ := isDirectory_eq_true.mp (h (here ++ [name]) ⟨rest, hnext⟩).1
        have he : t.Enters here name m := ht.enters (h here ⟨name :: rest, hroot⟩).2 hm
        rw [List.cons_append, resolve_of_enters he, hdir]
        exact ih (here ++ [name]) hnext
  exact key root [] rfl

end Tree
end UnionFS
