import UnionFS.Union.Tag

/-!
# Tags that are read back

A tag that is attached to a path is the one that is read from it, whatever stands before it
(`ofPath_attach`): the last closer of the path is the tag's own, and so is the last opener before
it, unless the server's name holds one.  A name keeps its address below any directory
(`ofPath_below`).
-/

namespace UnionFS

namespace Tag

variable {a b : Char} {s u v : List Char}

/-- What is cut off at the end of a text is cut off with anything before it. -/
theorem splitLast_append (x : List Char) (h : splitLast a b s = some (u, v)) :
    splitLast a b (x ++ s) = some (x ++ u, v) := by
  induction x with
  | nil => exact h
  | cons c x ih =>
      cases hxs : x ++ s with
      | nil =>
          rw [hxs] at ih
          cases ih
      | cons d rest =>
          rw [hxs] at ih
          rw [List.cons_append, hxs, splitLast, ih]
          rfl

theorem splitLast_cons_of_ne {c : Char} (hc : c ≠ a) (h : splitLast a b s = none) :
    splitLast a b (c :: s) = none := by
  cases s with
  | nil => rfl
  | cons d rest =>
      rw [splitLast, h]
      exact if_neg fun hab => hc hab.1

/-- The last pair is there if there is one at all. -/
theorem isSome_splitLast_iff :
    (splitLast a b s).isSome ↔ ∃ u v, s = u ++ a :: b :: v := by
  constructor
  · intro h
    obtain ⟨⟨u, v⟩, huv⟩ := Option.isSome_iff_exists.mp h
    exact ⟨u, v, splitLast_eq_some huv⟩
  · rintro ⟨u, v, rfl⟩
    have hpair : ∃ w, splitLast a b (a :: b :: v) = some w := by
      rw [splitLast]
      cases splitLast a b (b :: v) with
      | some w => exact ⟨_, rfl⟩
      | none => exact ⟨_, if_pos ⟨rfl, rfl⟩⟩
    obtain ⟨⟨u', v'⟩, hw⟩ := hpair
    rw [splitLast_append u hw]
    rfl

theorem splitLast_pair (h : splitLast a b (b :: s) = none) :
    splitLast a b (a :: b :: s) = some ([], s) := by
  rw [splitLast, h]
  exact if_pos ⟨rfl, rfl⟩

/-- The last pair of a text that ends in one. -/
theorem splitLast_concat (x : List Char) :
    splitLast a b (x ++ [a, b]) = some (x, []) := by
  have h := splitLast_append x (splitLast_pair (a := a) (b := b) (s := []) rfl)
  rwa [List.append_nil] at h

/-! ## Segments -/

theorem splitSegment_append_of_no_slash (path : List Char) {x : List Char} (hx : '/' ∉ x) :
    splitSegment (path ++ x) = ((splitSegment path).1, (splitSegment path).2 ++ x) := by
  have hall : ∀ c ∈ x.reverse, (c != '/') = true := by
    intro c hc
    have hne : c ≠ '/' := fun he => hx (he ▸ List.mem_reverse.mp hc)
    simpa using hne
  simp only [splitSegment, List.reverse_append]
  rw [List.takeWhile_append_of_pos hall, List.dropWhile_append_of_pos hall, List.reverse_append,
    List.reverse_reverse]

theorem takeWhile_append_slash (x y : List Char) :
    (x ++ '/' :: y).takeWhile (· != '/') = x.takeWhile (· != '/') := by
  induction x with
  | nil => rfl
  | cons c x ih =>
      rw [List.cons_append, List.takeWhile_cons, List.takeWhile_cons, ih]

theorem dropWhile_append_slash (x y : List Char) :
    (x ++ '/' :: y).dropWhile (· != '/') = x.dropWhile (· != '/') ++ '/' :: y := by
  induction x with
  | nil => rfl
  | cons c x ih =>
      rw [List.cons_append, List.dropWhile_cons, List.dropWhile_cons, ih]
      split <;> rfl

/-- The segment of a path is that of what follows any slash. -/
theorem splitSegment_slash (path x : List Char) :
    splitSegment (path ++ '/' :: x) = (path ++ '/' :: (splitSegment x).1, (splitSegment x).2) := by
  have hrev : (path ++ '/' :: x).reverse = x.reverse ++ '/' :: path.reverse := by simp
  rw [splitSegment, splitSegment, hrev, takeWhile_append_slash, dropWhile_append_slash]
  simp

end Tag

open Tag

/-- `name` below the directory at a path. -/
def Path.under (directory name : String) : String :=
  if directory.toList.getLast? == some '/' then directory ++ name else directory ++ "/" ++ name

theorem Path.toList_under (directory : String) :
    ∃ front, ∀ name, (Path.under directory name).toList = front ++ '/' :: name.toList := by
  by_cases h : directory.toList.getLast? = some '/'
  · obtain ⟨front, hfront⟩ := List.getLast?_eq_some_iff.mp h
    refine ⟨front, fun name => ?_⟩
    rw [Path.under, if_pos (by simpa using h), String.toList_append, hfront, List.append_assoc]
    rfl
  · refine ⟨directory.toList, fun name => ?_⟩
    rw [Path.under, if_neg (by simpa using h), String.toList_append, String.toList_append,
      List.append_assoc]
    rfl

namespace Address

/-- A segment without its last tag, and the tag's server. -/
def cut? (segment : List Char) : Option (List Char × List Char) :=
  (splitCloser segment).bind fun x =>
    (splitOpener x.1).map fun y => (y.1 ++ x.2, y.2)

/-- What is left of a path, and the server, once the tag of its segment is found or not. -/
def ofCut (path : String) (parent : List Char) : Option (List Char × List Char) → Address
  | none => ⟨"", path⟩
  | some (rest, server) => ⟨String.ofList server, String.ofList (parent ++ rest)⟩

theorem ofPath_eq (path : String) :
    ofPath path =
      ofCut path (splitSegment path.toList).1 (cut? (splitSegment path.toList).2) := by
  rw [ofPath, cut?]
  dsimp only
  cases splitCloser (splitSegment path.toList).2 with
  | none => rfl
  | some w =>
      obtain ⟨head, after⟩ := w
      dsimp only [Option.bind]
      cases splitOpener head with
      | none => rfl
      | some w =>
          show Address.mk (String.ofList w.2) (String.ofList (_ ++ w.1 ++ after)) = _
          rw [List.append_assoc]
          rfl

/-- **A tag that is attached to a path is read back from it**, whatever stands before it. -/
theorem ofPath_attach (path : String) {server : String} (hslash : '/' ∉ server.toList)
    (hopener : hasOpener server = false) : ofPath (attach path server) = ⟨server, path⟩ := by
  have hserver : splitOpener server.toList = none := by simpa [hasOpener] using hopener
  have htag : '/' ∉ '{' :: ':' :: (server.toList ++ [':', '}']) := by
    simp [hslash]
  have hpath : (attach path server).toList =
      path.toList ++ '{' :: ':' :: (server.toList ++ [':', '}']) := by
    simp [attach]
  have hcut (x : List Char) : cut? (x ++ '{' :: ':' :: (server.toList ++ [':', '}'])) =
      some (x, server.toList) := by
    have hcloser := splitLast_concat (a := ':') (b := '}') (x ++ '{' :: ':' :: server.toList)
    have hopen := splitLast_append x (splitLast_pair (splitLast_cons_of_ne (by decide) hserver))
    rw [show x ++ '{' :: ':' :: (server.toList ++ [':', '}']) =
      x ++ '{' :: ':' :: server.toList ++ [':', '}'] by simp]
    rw [cut?, splitCloser, hcloser]
    dsimp only [Option.bind]
    rw [splitOpener, hopen]
    simp
  rw [ofPath_eq, hpath, splitSegment_append_of_no_slash _ htag, hcut, ofCut,
    splitSegment_append, String.ofList_toList, String.ofList_toList]

/-- **A name has the same address in every directory.** -/
theorem ofPath_under (directory name : String) :
    ofPath (Path.under directory name) =
      ⟨(ofPath name).server, Path.under directory (ofPath name).path⟩ := by
  obtain ⟨front, hfront⟩ := Path.toList_under directory
  rw [ofPath_eq, ofPath_eq, hfront, splitSegment_slash]
  dsimp only
  cases cut? (splitSegment name.toList).2 with
  | none => rfl
  | some w =>
      obtain ⟨rest, server⟩ := w
      rw [ofCut, ofCut]
      congr 1
      refine String.toList_injective ?_
      rw [hfront, String.toList_ofList, String.toList_ofList, List.append_assoc, List.cons_append]

theorem ofPath_of_no_opener {name : String} (h : hasOpener name = false) :
    ofPath name = ⟨"", name⟩ := by
  have hcut : cut? (splitSegment name.toList).2 = none := by
    rw [cut?]
    cases hcloser : splitCloser (splitSegment name.toList).2 with
    | none => rfl
    | some w =>
        obtain ⟨head, after⟩ := w
        -- an opener before the closer would be one of the name
        cases hopen : splitOpener head with
        | none => simp [hopen]
        | some w =>
            exfalso
            obtain ⟨before, server⟩ := w
            have hname := splitSegment_append name.toList
            rw [splitLast_eq_some hcloser, splitLast_eq_some hopen] at hname
            have hsome : (splitOpener name.toList).isSome := by
              refine isSome_splitLast_iff.mpr ⟨(splitSegment name.toList).1 ++ before,
                server ++ ':' :: '}' :: after, hname.symm.trans ?_⟩
              simp
            rw [hasOpener, hsome] at h
            cases h
  rw [ofPath_eq, hcut, ofCut]

end Address

end UnionFS
