import UnionFS.Tree.Resolve

/-!
# Well-formed trees

What a file system guarantees of a tree: one object for each path, a directory at the root and above
each object, and names that no path takes for something else.

* `lookup_eq_some_iff`: in a well-formed tree an object is found exactly where it stands;
* `mem_children`: and the children of a directory are what is found one name below it;
* `WellFormed.modify`: changing an object keeps the tree well-formed if a directory stays one.
-/

namespace UnionFS

/-- A name that stands for an object and for nothing else. -/
structure Name.IsPlain (name : Name) : Prop where
  ne_nil : name ≠ []
  ne_dot : name ≠ Name.dot
  ne_dotDot : name ≠ Name.dotDot
  no_slash : Name.slash ∉ name
  no_zero : 0 ∉ name
  short : name.length ≤ Name.limit

namespace Tree

structure WellFormed (t : Tree) : Prop where
  distinct : (t.nodes.map (·.1)).Nodup
  root : t.isDirectory [] = true
  parent : ∀ path name, (t.lookup (path ++ [name])).isSome → t.isDirectory path = true
  plain : ∀ path name, (t.lookup (path ++ [name])).isSome → name.IsPlain

theorem lookup_eq_some_iff {t : Tree} (h : t.WellFormed) {path : Path} {n : Node} :
    t.lookup path = some n ↔ (path, n) ∈ t.nodes := by
  have key : ∀ nodes : List (Path × Node), (nodes.map (·.1)).Nodup →
      (nodes.lookup path = some n ↔ (path, n) ∈ nodes) := by
    intro nodes distinct
    induction nodes with
    | nil => simp
    | cons head rest ih =>
      obtain ⟨p, m⟩ := head
      obtain ⟨fresh, distinct⟩ := List.nodup_cons.mp distinct
      by_cases hp : path = p
      · subst hp
        have absent : (path, n) ∉ rest := fun hm =>
          fresh (List.mem_map.mpr ⟨_, hm, rfl⟩)
        simp [absent, eq_comm]
      · have : (path == p) = false := by simpa using hp
        simp [List.lookup_cons, this, ih distinct, hp]
  exact key t.nodes h.distinct

/-- In a part of a tree an object is found where it was, if it is of the part. -/
theorem lookup_filter (t : Tree) (keep : Path → Bool) (path : Path) :
    ({ t with nodes := t.nodes.filter fun x => keep x.1 } : Tree).lookup path =
      if keep path then t.lookup path else none := by
  simp only [lookup]
  induction t.nodes with
  | nil => simp
  | cons head rest ih =>
    obtain ⟨p, n⟩ := head
    rw [List.filter_cons]
    by_cases hp : path = p
    · subst hp
      cases hkeep : keep path <;> simp [hkeep, ih]
    · have hbeq : (path == p) = false := by simpa using hp
      cases hkeep : keep p <;> simp [hbeq, List.lookup_cons, ih]

/-- What is taken for a child of a directory stands one name below it. -/
theorem eq_of_child {path p : Path} {name : Name} {n m : Node}
    (h : (match p.getLast? with
      | some last => if p.dropLast == path then some (last, m) else none
      | none => none) = some (name, n)) : (p, m) = (path ++ [name], n) := by
  split at h
  · next last hl =>
    split at h
    · next hd =>
      cases h
      obtain ⟨front, rfl⟩ := List.getLast?_eq_some_iff.mp hl
      rw [List.dropLast_concat] at hd
      rw [eq_of_beq hd]
    · cases h
  · cases h

theorem mem_nodes_of_mem_children {t : Tree} {path : Path} {name : Name} {n : Node}
    (h : (name, n) ∈ t.children path) : (path ++ [name], n) ∈ t.nodes := by
  obtain ⟨⟨p, m⟩, hm, hp⟩ := List.mem_filterMap.mp h
  exact eq_of_child hp ▸ hm

theorem mem_children {t : Tree} (h : t.WellFormed) {path : Path} {name : Name} {n : Node} :
    (name, n) ∈ t.children path ↔ t.lookup (path ++ [name]) = some n := by
  rw [lookup_eq_some_iff h]
  constructor
  · exact mem_nodes_of_mem_children
  · intro hm
    exact List.mem_filterMap.mpr ⟨_, hm, by simp⟩

/-- Writing to a file, in particular, keeps the tree well-formed. -/
theorem WellFormed.modify {t : Tree} (h : t.WellFormed) (path : Path) {f : Node → Node}
    (kind : ∀ n, (f n).isDirectory = n.isDirectory) : (t.modify path f).WellFormed := by
  have isSome (q : Path) : ((t.modify path f).lookup q).isSome = (t.lookup q).isSome := by
    rw [lookup_modify]
    split <;> simp
  have isDirectory (q : Path) : (t.modify path f).isDirectory q = t.isDirectory q := by
    rw [Tree.isDirectory, Tree.isDirectory, lookup_modify]
    split
    · cases t.lookup q <;> simp [kind]
    · rfl
  refine ⟨?_, ?_, ?_, ?_⟩
  · have same : (t.modify path f).nodes.map (·.1) = t.nodes.map (·.1) := by
      simp [Tree.modify, Function.comp_def]
    rw [same]
    exact h.distinct
  · rw [isDirectory]
    exact h.root
  · intro q name hq
    rw [isSome] at hq
    rw [isDirectory]
    exact h.parent q name hq
  · intro q name hq
    rw [isSome] at hq
    exact h.plain q name hq

end Tree
end UnionFS
