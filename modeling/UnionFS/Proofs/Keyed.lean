import Mathlib.Data.List.Dedup

/-!
# Lists by key

Elements are told by a key.  Sorting by the key is stable, so a sorted list is told by what it holds
of each key, and in which order (`filter_mergeSort`, `eq_of_filter_eq`).  Of several elements with
one key the first is kept: an element is among those exactly if it is what is found when its key is
looked for (`mem_firstsBy_iff`).
-/

namespace UnionFS

variable {α β κ : Type}

/-! ## Sorting -/

section Sorting

variable [LE κ] [DecidableLE κ] [Std.IsLinearOrder κ]

theorem key_le_trans (key : α → κ) (a b c : α) (h : decide (key a ≤ key b) = true)
    (h' : decide (key b ≤ key c) = true) : decide (key a ≤ key c) = true :=
  decide_eq_true (Std.le_trans (of_decide_eq_true h) (of_decide_eq_true h'))

theorem key_le_total (key : α → κ) (a b : α) :
    (decide (key a ≤ key b) || decide (key b ≤ key a)) = true := by
  rw [Bool.or_eq_true, decide_eq_true_eq, decide_eq_true_eq]
  exact Std.le_total

theorem pairwise_mergeSort_key (key : α → κ) (l : List α) :
    (l.mergeSort fun a b => key a ≤ key b).Pairwise fun a b => key a ≤ key b := by
  simpa using List.pairwise_mergeSort (key_le_trans key) (key_le_total key) l

variable [DecidableEq κ]

/-- **Sorting by a key leaves the elements of one key in their order.** -/
theorem filter_mergeSort (key : α → κ) (l : List α) (k : κ) :
    (l.mergeSort fun a b => key a ≤ key b).filter (key · == k) = l.filter (key · == k) := by
  have hsame : (l.filter (key · == k)).Pairwise fun a b => decide (key a ≤ key b) = true := by
    refine List.pairwise_of_forall_mem_list fun a ha b hb => decide_eq_true ?_
    rw [eq_of_beq (List.mem_filter.mp ha).2, eq_of_beq (List.mem_filter.mp hb).2]
    exact Std.le_refl k
  -- being sorted as they stand, they stay a sublist; and the sort has no more of them
  have hsub := (List.sublist_mergeSort (key_le_trans key) (key_le_total key) hsame
    List.filter_sublist).filter (key · == k)
  simp only [List.filter_filter, Bool.and_self] at hsub
  exact (hsub.eq_of_length ((List.mergeSort_perm l _).filter _).length_eq.symm).symm

end Sorting

section Sorted

variable [LE κ] [Std.IsLinearOrder κ] [DecidableEq κ] {key : α → κ} {l l' : List α}

/-- The first key of a sorted list is not above that of a list with the same elements of it. -/
theorem key_head_le {a b : α} (hsorted : (a :: l).Pairwise fun a b => key a ≤ key b)
    (hfilter : (a :: l).filter (key · == key b) = (b :: l').filter (key · == key b)) :
    key a ≤ key b := by
  have hb : b ∈ (b :: l').filter (key · == key b) :=
    List.mem_filter.mpr ⟨List.mem_cons_self, beq_self_eq_true _⟩
  rw [← hfilter] at hb
  rcases List.mem_cons.mp (List.mem_filter.mp hb).1 with rfl | hmem
  · exact Std.le_refl _
  · exact (List.pairwise_cons.mp hsorted).1 b hmem

/-- **A list that is sorted by a key is told by what it holds of each.** -/
theorem eq_of_filter_eq (hsorted : l.Pairwise fun a b => key a ≤ key b)
    (hsorted' : l'.Pairwise fun a b => key a ≤ key b)
    (hfilter : ∀ k, l.filter (key · == k) = l'.filter (key · == k)) : l = l' := by
  induction l generalizing l' with
  | nil =>
      cases l' with
      | nil => rfl
      | cons b rest' =>
          have := hfilter (key b)
          simp at this
  | cons a rest ih =>
      cases l' with
      | nil =>
          have := hfilter (key a)
          simp at this
      | cons b rest' =>
          -- each head has the least key of its list, and both lists have the same keys
          have hkey : key a = key b :=
            Std.le_antisymm (key_head_le hsorted (hfilter (key b)))
              (key_head_le hsorted' (hfilter (key a)).symm)
          have hhead := hfilter (key a)
          rw [List.filter_cons, if_pos (beq_self_eq_true _), List.filter_cons,
            if_pos (beq_iff_eq.mpr hkey.symm)] at hhead
          obtain ⟨rfl, -⟩ := List.cons.inj hhead
          refine congrArg _ (ih (List.pairwise_cons.mp hsorted).2 (List.pairwise_cons.mp hsorted').2
            fun k => ?_)
          have hk := hfilter k
          rw [List.filter_cons, List.filter_cons] at hk
          split at hk
          · exact (List.cons.inj hk).2
          · exact hk

end Sorted

/-! ## The first of each key -/

section Firsts

variable [DecidableEq κ] {key : α → κ} {l : List α} {a : α}

/-- The first element of each key. -/
def firstsBy (key : α → κ) (l : List α) : List α :=
  l.foldr (fun a rest => a :: rest.filter (key · != key a)) []

theorem firstsBy_cons (key : α → κ) (a : α) (rest : List α) :
    firstsBy key (a :: rest) = a :: (firstsBy key rest).filter (key · != key a) := rfl

/-- **What is kept is what is found by its key.** -/
theorem mem_firstsBy_iff : a ∈ firstsBy key l ↔ l.find? (key · == key a) = some a := by
  induction l with
  | nil => exact iff_of_false List.not_mem_nil nofun
  | cons b rest ih =>
      rw [firstsBy_cons, List.mem_cons, List.mem_filter, ih, List.find?_cons]
      by_cases hkey : key b = key a
      · rw [beq_iff_eq.mpr hkey]
        constructor
        · rintro (rfl | ⟨-, hne⟩)
          · rfl
          · exact absurd hkey.symm (bne_iff_ne.mp hne)
        · intro h
          exact .inl (Option.some.inj h).symm
      · rw [beq_eq_false_iff_ne.mpr hkey]
        constructor
        · rintro (rfl | ⟨hfound, -⟩)
          · exact absurd rfl hkey
          · exact hfound
        · intro h
          exact .inr ⟨h, bne_iff_ne.mpr (Ne.symm hkey)⟩

theorem firstsBy_sublist (key : α → κ) (l : List α) : (firstsBy key l).Sublist l := by
  induction l with
  | nil => exact .slnil
  | cons a rest ih => exact (List.filter_sublist.trans ih).cons_cons a

/-- Each key is kept once. -/
theorem nodup_firstsBy (key : α → κ) (l : List α) : ((firstsBy key l).map key).Nodup := by
  induction l with
  | nil => exact List.nodup_nil
  | cons a rest ih =>
      rw [firstsBy_cons, List.map_cons]
      refine List.nodup_cons.mpr ⟨fun hmem => ?_, (List.filter_sublist.map _).nodup ih⟩
      obtain ⟨b, hb, hkey⟩ := List.mem_map.mp hmem
      exact bne_iff_ne.mp (List.mem_filter.mp hb).2 hkey

/-- No key is lost. -/
theorem exists_mem_firstsBy (h : a ∈ l) : ∃ b ∈ firstsBy key l, key b = key a := by
  -- the one that is found by this key
  cases hfind : l.find? (key · == key a) with
  | none => exact absurd (beq_self_eq_true _) (List.find?_eq_none.mp hfind a h)
  | some b =>
      have hkey : key b = key a := eq_of_beq (List.find?_eq_some_iff_append.mp hfind).1
      refine ⟨b, mem_firstsBy_iff.mpr ?_, hkey⟩
      rw [hkey]
      exact hfind

theorem mem_map_firstsBy_iff {k : κ} : k ∈ (firstsBy key l).map key ↔ k ∈ l.map key := by
  constructor
  · intro h
    exact ((firstsBy_sublist key l).map key).subset h
  · intro h
    obtain ⟨a, ha, rfl⟩ := List.mem_map.mp h
    obtain ⟨b, hb, hkey⟩ : ∃ b ∈ firstsBy key l, key b = key a := exists_mem_firstsBy ha
    exact List.mem_map.mpr ⟨b, hb, hkey⟩

theorem firstsBy_map (key : β → κ) (f : α → β) (l : List α) :
    firstsBy key (l.map f) = (firstsBy (fun a => key (f a)) l).map f := by
  induction l with
  | nil => rfl
  | cons a rest ih =>
      rw [List.map_cons, firstsBy_cons, firstsBy_cons, ih, List.map_cons, List.filter_map]
      rfl

theorem firstsBy_eq_self (h : (l.map key).Nodup) : firstsBy key l = l := by
  refine (firstsBy_sublist key l).eq_of_length ?_
  have hperm : ((firstsBy key l).map key).Perm (l.map key) :=
    (List.perm_ext_iff_of_nodup (nodup_firstsBy key l) h).mpr fun k => mem_map_firstsBy_iff
  simpa using hperm.length_eq

end Firsts
end UnionFS
