import UnionFS.Proofs.Tree.Outline
import UnionFS.Tree.Dates

/-!
# What dates leave alone

New dates change nothing about an object but what is shown of it (`stat_undated`), and nothing about
where paths lead (`sameOutline_mark`).  Blank dates forget what was marked (`undated_mark`) and go
together with writing (`undated_modify`).
-/

namespace UnionFS

namespace Node

variable (n : Node) (dates : Dates)

theorem stat_undated : n.undated.stat = n.stat.undated := rfl

theorem overlay_dated (offset : Nat) (data : Bytes) :
    (n.dated dates).overlay offset data = (n.overlay offset data).dated dates := by
  cases n with | mk content => cases content <;> rfl

end Node

namespace Tree

variable (t : Tree) (m : Marks)

theorem lookup_mark (p : Path) :
    (t.mark m).lookup p = (t.lookup p).map fun n => (m p).elim n n.dated := by
  simp only [lookup, mark]
  induction t.nodes with
  | nil => rfl
  | cons head rest ih =>
      obtain ⟨q, n⟩ := head
      simp only [List.map_cons, List.lookup_cons]
      by_cases hq : p = q
      · subst hq
        simp
      · have : (p == q) = false := by simpa using hq
        simpa only [this] using ih

theorem lookup_undated (p : Path) : t.undated.lookup p = (t.lookup p).map Node.undated :=
  t.lookup_mark _ p

/-- Whatever is marked, paths lead where they led. -/
theorem sameOutline_mark : t.SameOutline (t.mark m) := by
  refine ⟨rfl, fun p => ?_⟩
  rw [lookup_mark, Option.map_map]
  refine congrArg (Option.map · (t.lookup p)) (funext fun n => ?_)
  rw [Function.comp]
  cases m p <;> rfl

@[simp] theorem undated_mark : (t.mark m).undated = t.undated := by
  simp only [undated, mark, List.map_map]
  congr 1
  refine List.map_congr_left fun x _ => ?_
  rw [Function.comp]
  cases m x.1 <;> rfl

/-- A tree on which nothing is marked. -/
theorem mark_none : (t.mark fun _ => none) = t := by
  simp [mark]

theorem children_undated (p : Path) :
    t.undated.children p = (t.children p).map fun x => (x.1, x.2.undated) := by
  simp only [children, undated, mark, List.filterMap_map, List.map_filterMap]
  refine congrArg (List.filterMap · t.nodes) (funext fun x => ?_)
  obtain ⟨q, n⟩ := x
  simp only [Function.comp, Option.elim]
  split
  · split <;> rfl
  · rfl

/-- Marking first and then writing comes to the same as writing first. -/
theorem mark_modify (q : Path) (offset : Nat) (data : Bytes) :
    (t.mark m).modify q (·.overlay offset data) = (t.modify q (·.overlay offset data)).mark m := by
  simp only [modify, mark, List.map_map]
  congr 1
  refine List.map_congr_left fun x _ => ?_
  simp only [Function.comp]
  split
  · cases m x.1 with
    | none => rfl
    | some dates => exact congrArg (x.1, ·) (x.2.overlay_dated dates offset data)
  · rfl

theorem undated_modify (q : Path) (offset : Nat) (data : Bytes) :
    t.undated.modify q (·.overlay offset data) = (t.modify q (·.overlay offset data)).undated :=
  t.mark_modify _ q offset data

end Tree
end UnionFS
