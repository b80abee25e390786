import UnionFS.Proofs.Union.Merging

/-!
# Tags among stray delimiters

Openers and closers may stand anywhere in a name, and may overlap.  A tag is read exactly where a
segment has a complete one: an opener, a server's name and a closer, with neither in the name.  Of
several the one that starts last is read, whatever openers stand around it and whatever closers
before it.  But it ends at the last closer of the segment: a closer that comes later makes the name
of its server longer (`addressed`), so that the server is not always the one between the opener and
the next closer (`not_always_next_closer`).

In return a name with closers in it can stand in a tag: a tag that is attached is read back exactly
if the server's name holds no opener and no slash (`attach_undone`).

What carries both is that a text is cut at its last pair (`splitLast_eq_some_iff`), so that a cut of
a segment is known once it is seen (`Cut.unique`).
-/

namespace UnionFS

namespace Tag

variable {a b : Char} {s u v : List Char}

/-! ## Pairs of characters -/

theorem infix_pair_iff : [a, b] <:+: s ↔ ∃ u v, s = u ++ a :: b :: v := by
  constructor
  · intro h
    obtain ⟨u, v, huv⟩ := h
    exact ⟨u, v, by simpa using huv.symm⟩
  · intro h
    obtain ⟨u, v, rfl⟩ := h
    exact ⟨u, v, by simp⟩

theorem splitLast_eq_none_iff : splitLast a b s = none ↔ ¬ [a, b] <:+: s := by
  rw [infix_pair_iff, ← isSome_splitLast_iff]
  simp

/-- **A text is cut at its last pair.** -/
theorem splitLast_eq_some_iff (hab : a ≠ b) :
    splitLast a b s = some (u, v) ↔ s = u ++ a :: b :: v ∧ ¬ [a, b] <:+: v := by
  have cut {u v : List Char} (hv : ¬ [a, b] <:+: v) :
      splitLast a b (u ++ a :: b :: v) = some (u, v) := by
    have hlast := splitLast_pair (splitLast_cons_of_ne hab.symm (splitLast_eq_none_iff.mpr hv))
    simpa using splitLast_append u hlast
  constructor
  · intro h
    have hs := splitLast_eq_some h
    refine ⟨hs, fun hv => ?_⟩
    -- a later pair would have been the last
    obtain ⟨⟨u', v'⟩, hlater⟩ := Option.isSome_iff_exists.mp
      (isSome_splitLast_iff.mpr (infix_pair_iff.mp hv))
    have hv' := splitLast_eq_some hlater
    have hcut := splitLast_append (u ++ [a, b]) hlater
    rw [show u ++ [a, b] ++ v = s by rw [hs]; simp, h] at hcut
    have hlength := congrArg List.length hv'
    rw [(Prod.mk.inj (Option.some.inj hcut)).2] at hlength
    simp only [List.length_append, List.length_cons] at hlength
    omega
  · intro h
    obtain ⟨rfl, hv⟩ := h
    exact cut hv

theorem exists_last_pair (hab : a ≠ b) (h : [a, b] <:+: s) :
    ∃ u v, s = u ++ a :: b :: v ∧ ¬ [a, b] <:+: v := by
  obtain ⟨⟨u, v⟩, hlast⟩ := Option.isSome_iff_exists.mp
    (isSome_splitLast_iff.mpr (infix_pair_iff.mp h))
  exact ⟨u, v, (splitLast_eq_some_iff hab).mp hlast⟩

theorem exists_first_pair {s : List Char} (h : [a, b] <:+: s) :
    ∃ u v, s = u ++ a :: b :: v ∧ ¬ [a, b] <:+: u := by
  obtain ⟨u, v, hs⟩ := infix_pair_iff.mp h
  by_cases hu : [a, b] <:+: u
  · have : u.length < s.length := by
      rw [hs]
      simp
    obtain ⟨u', v', hu', hfirst⟩ := exists_first_pair hu
    refine ⟨u', v' ++ a :: b :: v, ?_, hfirst⟩
    rw [hs, hu']
    simp
  · exact ⟨u, v, hs, hu⟩
termination_by s.length

theorem length_le_of_first_pair (hab : a ≠ b) {u' v' : List Char}
    (h : u ++ a :: b :: v = u' ++ a :: b :: v') (hu' : ¬ [a, b] <:+: u') :
    u'.length ≤ u.length := by
  refine Nat.not_lt.mp fun hlt => hu' ?_
  have hu : u <+: u' := List.prefix_of_prefix_length_le
    ⟨a :: b :: v, h⟩ (List.prefix_append u' _) (Nat.le_of_lt hlt)
  obtain ⟨w, rfl⟩ := hu
  rw [List.append_assoc, List.append_right_inj] at h
  -- the pair after `u` lies in `w`, since its two characters differ
  match w, h with
  | [], _ => simp at hlt
  | [x], h =>
    simp only [List.cons_append, List.nil_append, List.cons.injEq] at h
    exact absurd h.2.1.symm hab
  | x :: y :: w, h =>
    simp only [List.cons_append, List.cons.injEq] at h
    obtain ⟨rfl, rfl, -⟩ := h
    exact infix_pair_iff.mpr ⟨u, w, rfl⟩

/-- The first pair of a text is in one place. -/
theorem first_pair_unique (hab : a ≠ b) {u' v' : List Char}
    (h : u ++ a :: b :: v = u' ++ a :: b :: v') (hu : ¬ [a, b] <:+: u)
    (hu' : ¬ [a, b] <:+: u') : u = u' ∧ v = v' := by
  have hle := length_le_of_first_pair hab h hu'
  have hge := length_le_of_first_pair hab h.symm hu
  obtain ⟨hstart, hrest⟩ := List.append_inj h (by omega)
  simp only [List.cons.injEq, true_and] at hrest
  exact ⟨hstart, hrest⟩

/-! ## Complete tags -/

/-- A tag stands in a segment: an opener, the name of a server and a closer, and neither an opener
nor a closer is in the name. -/
structure Complete (segment before server after : List Char) : Prop where
  split : segment = before ++ '{' :: ':' :: (server ++ ':' :: '}' :: after)
  no_opener : ¬ ['{', ':'] <:+: server
  no_closer : ¬ [':', '}'] <:+: server

/-- Of the tags that stand in a segment this one starts last. -/
structure Rightmost (segment before server after : List Char) : Prop
    extends Complete segment before server after where
  last : ∀ before' server' after', Complete segment before' server' after' →
    before'.length ≤ before.length

/-- What is cut out of a segment: the closer is the last one of the segment, and the opener the last
one before it. -/
structure Cut (segment before server after : List Char) : Prop where
  split : segment = before ++ '{' :: ':' :: (server ++ ':' :: '}' :: after)
  no_opener : ¬ ['{', ':'] <:+: server
  no_closer : ¬ [':', '}'] <:+: after

variable {segment before server after before' server' after' : List Char}

theorem Cut.splitCloser (h : Cut segment before server after) :
    splitCloser segment = some (before ++ '{' :: ':' :: server, after) :=
  (splitLast_eq_some_iff (by decide)).mpr ⟨by rw [h.split]; simp, h.no_closer⟩

theorem Cut.splitOpener (h : Cut segment before server after) :
    splitOpener (before ++ '{' :: ':' :: server) = some (before, server) :=
  (splitLast_eq_some_iff (by decide)).mpr ⟨rfl, h.no_opener⟩

theorem Cut.unique (h : Cut segment before server after) (h' : Cut segment before' server' after') :
    before = before' ∧ server = server' ∧ after = after' := by
  have hcloser := h.splitCloser
  rw [h'.splitCloser] at hcloser
  obtain ⟨hhead, hafter⟩ := Prod.mk.inj (Option.some.inj hcloser)
  have hopener := h.splitOpener
  rw [← hhead, h'.splitOpener] at hopener
  obtain ⟨hbefore, hserver⟩ := Prod.mk.inj (Option.some.inj hopener)
  exact ⟨hbefore.symm, hserver.symm, hafter.symm⟩

/-- Where a tag is complete one is cut out, which starts no earlier. -/
theorem Complete.exists_cut (h : Complete segment before server after) :
    ∃ before' server' after', Cut segment before' server' after'
      ∧ before.length ≤ before'.length := by
  by_cases hafter : [':', '}'] <:+: after
  · -- the last closer is a later one, and the last opener before it may be later too
    obtain ⟨more, rest, rfl, hrest⟩ := exists_last_pair (by decide) hafter
    by_cases hopener : ['{', ':'] <:+: server ++ ':' :: '}' :: more
    · obtain ⟨skipped, name, hsplit, hname⟩ := exists_last_pair (by decide) hopener
      refine ⟨before ++ '{' :: ':' :: skipped, name, rest, ⟨?_, hname, hrest⟩, by simp⟩
      rw [h.split, show server ++ ':' :: '}' :: (more ++ ':' :: '}' :: rest) =
        (server ++ ':' :: '}' :: more) ++ ':' :: '}' :: rest by simp, hsplit]
      simp
    · refine ⟨before, server ++ ':' :: '}' :: more, rest, ⟨?_, hopener, hrest⟩, Nat.le_refl _⟩
      rw [h.split]
      simp
  · exact ⟨before, server, after, ⟨h.split, h.no_opener, hafter⟩, Nat.le_refl _⟩

/-- Where one is cut out a tag is complete that starts there and ends at the next closer. -/
theorem Cut.exists_complete (h : Cut segment before server after) :
    ∃ name rest, Complete segment before name rest := by
  by_cases hcloser : [':', '}'] <:+: server
  · obtain ⟨name, more, rfl, hname⟩ := exists_first_pair hcloser
    refine ⟨name, more ++ ':' :: '}' :: after, ?_, fun hopener => ?_, hname⟩
    · rw [h.split]
      simp
    · exact h.no_opener (hopener.trans (List.prefix_append _ _).isInfix)
  · exact ⟨server, after, h.split, h.no_opener, hcloser⟩

/-- A complete tag that starts where one is cut out starts last. -/
theorem Cut.rightmost (h : Cut segment before server after) {name rest : List Char}
    (hcomplete : Complete segment before name rest) : Rightmost segment before name rest where
  toComplete := hcomplete
  last before' server' after' h' := by
    obtain ⟨before'', server'', after'', hcut, hle⟩ := h'.exists_cut
    rw [(h.unique hcut).1]
    exact hle

/-- What is cut out starts with the complete tag that starts last. -/
theorem Rightmost.exists_cut (h : Rightmost segment before server after) :
    ∃ server' after', Cut segment before server' after' := by
  obtain ⟨before', server', after', hcut, hle⟩ := h.toComplete.exists_cut
  obtain ⟨name, rest, hcomplete⟩ := hcut.exists_complete
  have hge := h.last before' name rest hcomplete
  have hsplit := h.split.symm.trans hcut.split
  obtain ⟨rfl, -⟩ := List.append_inj hsplit (by omega)
  exact ⟨server', after', hcut⟩

/-- A closer that comes after a tag belongs to it. -/
theorem Rightmost.cut_of_closer {more rest : List Char}
    (h : Rightmost segment before server (more ++ ':' :: '}' :: rest))
    (hrest : ¬ [':', '}'] <:+: rest) :
    Cut segment before (server ++ ':' :: '}' :: more) rest := by
  obtain ⟨server', after', hcut⟩ := h.exists_cut
  have hsplit : segment = (before ++ '{' :: ':' :: (server ++ ':' :: '}' :: more)) ++
      ':' :: '}' :: rest := by
    rw [h.split]
    simp
  have hcloser : splitCloser segment =
      some (before ++ '{' :: ':' :: (server ++ ':' :: '}' :: more), rest) :=
    (splitLast_eq_some_iff (by decide)).mpr ⟨hsplit, hrest⟩
  rw [hcut.splitCloser] at hcloser
  obtain ⟨hhead, rfl⟩ := Prod.mk.inj (Option.some.inj hcloser)
  have hserver := (List.append_right_inj before).mp hhead
  simp only [List.cons.injEq, true_and] at hserver
  exact hserver ▸ hcut

theorem exists_rightmost (h : ∃ before server after, Complete segment before server after) :
    ∃ before server after, Rightmost segment before server after := by
  obtain ⟨before, server, after, hcomplete⟩ := h
  obtain ⟨before', server', after', hcut, -⟩ := hcomplete.exists_cut
  obtain ⟨name, rest, hname⟩ := hcut.exists_complete
  exact ⟨before', name, rest, hcut.rightmost hname⟩

/-- A complete tag ends at the closer that is next to its opener. -/
theorem Rightmost.unique (h : Rightmost segment before server after)
    (h' : Rightmost segment before' server' after') :
    before = before' ∧ server = server' ∧ after = after' := by
  have hle := h.last _ _ _ h'.toComplete
  have hge := h'.last _ _ _ h.toComplete
  obtain ⟨hbefore, htail⟩ := List.append_inj (h.split.symm.trans h'.split) (by omega)
  simp only [List.cons.injEq, true_and] at htail
  exact ⟨hbefore, first_pair_unique (by decide) htail h.no_closer h'.no_closer⟩

/-- What is cut out of a segment, and what is left of the segment. -/
theorem cut?_eq_some_iff {rest : List Char} : Address.cut? segment = some (rest, server) ↔
    ∃ before after, Cut segment before server after ∧ rest = before ++ after := by
  rw [Address.cut?, Option.bind_eq_some_iff]
  constructor
  · intro h
    obtain ⟨⟨head, after⟩, hcloser, hmap⟩ := h
    obtain ⟨⟨before, name⟩, hopener, heq⟩ := Option.map_eq_some_iff.mp hmap
    obtain ⟨rfl, rfl⟩ := Prod.mk.inj heq
    obtain ⟨rfl, hafter⟩ := (splitLast_eq_some_iff (by decide)).mp hcloser
    obtain ⟨rfl, hname⟩ := (splitLast_eq_some_iff (by decide)).mp hopener
    exact ⟨before, after, ⟨by simp, hname, hafter⟩, rfl⟩
  · intro h
    obtain ⟨before, after, hcut, rfl⟩ := h
    exact ⟨_, hcut.splitCloser, Option.map_eq_some_iff.mpr ⟨_, hcut.splitOpener, rfl⟩⟩

end Tag

namespace Address

open Tag

variable {path : String} {before server after : List Char}

theorem ofPath_of_cut (h : Cut (splitSegment path.toList).2 before server after) :
    ofPath path =
      ⟨String.ofList server, String.ofList ((splitSegment path.toList).1 ++ before ++ after)⟩ := by
  rw [ofPath_eq, cut?_eq_some_iff.mpr ⟨before, after, h, rfl⟩, ofCut, List.append_assoc]

/-- Without a complete tag a path is left as it is. -/
theorem ofPath_of_not_complete
    (h : ¬ ∃ before server after, Complete (splitSegment path.toList).2 before server after) :
    ofPath path = ⟨"", path⟩ := by
  rw [ofPath_eq]
  cases hcut : cut? (splitSegment path.toList).2 with
  | none => rfl
  | some w =>
      obtain ⟨rest, server⟩ := w
      obtain ⟨before, after, hcut, -⟩ := cut?_eq_some_iff.mp hcut
      obtain ⟨name, rest, hcomplete⟩ := hcut.exists_complete
      exact absurd ⟨before, name, rest, hcomplete⟩ h

/-- A server that is read can stand in a tag. -/
theorem fits_server (path : String) : Fits (ofPath path).server := by
  rw [ofPath_eq]
  cases hcut : cut? (splitSegment path.toList).2 with
  | none =>
      have hempty : Fits "" := ⟨by decide, by decide⟩
      exact hempty
  | some w =>
      obtain ⟨rest, server⟩ := w
      obtain ⟨before, after, hcut, -⟩ := cut?_eq_some_iff.mp hcut
      show Fits (String.ofList server)
      have hslash := slash_not_mem_segment path.toList
      rw [hcut.split] at hslash
      refine ⟨?_, ?_⟩
      · rw [String.toList_ofList]
        intro hmem
        simp [hmem] at hslash
      · rw [String.toList_ofList]
        exact hcut.no_opener

/-- How a path is read by its parent and its last segment. -/
structure Addressed (path : String) (parent segment : List Char) : Prop where
  /-- Without a complete tag there is no server, and the path is left as it is. -/
  untagged : (¬ ∃ before server after, Complete segment before server after) →
    ofPath path = ⟨"", path⟩
  /-- Of complete tags there is one that starts last. -/
  exists_rightmost : (∃ before server after, Complete segment before server after) →
    ∃! tag : List Char × List Char × List Char, Rightmost segment tag.1 tag.2.1 tag.2.2
  /-- This one is read, if no closer comes after it. -/
  tagged : ∀ before server after, Rightmost segment before server after →
    ¬ [':', '}'] <:+: after →
      ofPath path = ⟨String.ofList server, String.ofList (parent ++ before ++ after)⟩
  /-- And with closers after it the last of them is its own. -/
  extended : ∀ before server more rest,
    Rightmost segment before server (more ++ ':' :: '}' :: rest) → ¬ [':', '}'] <:+: rest →
      ofPath path = ⟨String.ofList (server ++ ':' :: '}' :: more),
        String.ofList (parent ++ before ++ rest)⟩
  /-- Openers around a tag and closers before it make no difference. -/
  stray : ∀ before server after,
    segment = before ++ '{' :: ':' :: (server ++ ':' :: '}' :: after) →
      ¬ ['{', ':'] <:+: server → ¬ [':', '}'] <:+: after →
        ofPath path = ⟨String.ofList server, String.ofList (parent ++ before ++ after)⟩
  /-- There is no opener and no slash in the name of a server that is read. -/
  fits : Fits (ofPath path).server

/-- **A path is read by the tag that starts last in its last segment**, up to the last closer. -/
theorem addressed (path : String) :
    Addressed path (splitSegment path.toList).1 (splitSegment path.toList).2 where
  untagged := ofPath_of_not_complete
  exists_rightmost h := by
    obtain ⟨before, server, after, hlast⟩ := Tag.exists_rightmost h
    refine ⟨(before, server, after), hlast, fun tag htag => ?_⟩
    obtain ⟨hbefore, hserver, hafter⟩ := htag.unique hlast
    exact Prod.ext hbefore (Prod.ext hserver hafter)
  tagged before server after h hafter := ofPath_of_cut ⟨h.split, h.no_opener, hafter⟩
  extended before server more rest h hrest := ofPath_of_cut (h.cut_of_closer hrest)
  stray before server after hsplit hserver hafter := ofPath_of_cut ⟨hsplit, hserver, hafter⟩
  fits := fits_server path

/-- **A tag does not always end at the closer next to its opener**: here the server is `b:}c`. -/
theorem not_always_next_closer :
    ¬ ∀ (path : String) (before server after : List Char),
      Rightmost (splitSegment path.toList).2 before server after →
        ofPath path = ⟨String.ofList server,
          String.ofList ((splitSegment path.toList).1 ++ before ++ after)⟩ := by
  intro hall
  have hcut : Cut (splitSegment "a\x7b:b:\x7dc:\x7d".toList).2 ['a'] ['b', ':', '}', 'c'] [] :=
    ⟨by decide, by decide, by decide⟩
  have hcomplete :
      Complete (splitSegment "a\x7b:b:\x7dc:\x7d".toList).2 ['a'] ['b'] ['c', ':', '}'] :=
    ⟨by decide, by decide, by decide⟩
  have hread := hall _ _ _ _ (hcut.rightmost hcomplete)
  rw [ofPath_of_cut hcut] at hread
  exact absurd (congrArg Address.server hread) (by decide)

/-- **A tag that is attached is read back exactly if the server's name can stand in a tag**, whatever
is before it; so a tagged path tells the path and the server. -/
theorem attach_undone :
    (∀ path server, ofPath (attach path server) = ⟨server, path⟩ ↔ Fits server)
      ∧ ∀ path path' server server', Fits server → Fits server' →
        attach path server = attach path' server' → path = path' ∧ server = server' := by
  refine ⟨fun path server => ⟨fun h => ?_, fun h => h.ofPath_attach path⟩, ?_⟩
  · -- what is read can always stand in a tag
    have hfits := fits_server (attach path server)
    rwa [h] at hfits
  · intro path path' server server' hfits hfits' heq
    exact attach_inj hfits hfits' heq

/-- Delimiters before the tag, at its edges and in the name of the server; and a closer on either side
of the opener. -/
theorem attach_undone_overlapping :
    (Fits ":\x7ds:\x7b"
        ∧ ofPath (attach "/d\x7b:a:\x7d/x:\x7d\x7b" ":\x7ds:\x7b") =
          ⟨":\x7ds:\x7b", "/d\x7b:a:\x7d/x:\x7d\x7b"⟩)
      ∧ Fits "s" ∧ Fits ":\x7ds" ∧ attach "a:\x7d" "s" ≠ attach "a" ":\x7ds" := by
  have hfits : Fits ":\x7ds:\x7b" := ⟨by decide, by decide⟩
  have hplain : Fits "s" := ⟨by decide, by decide⟩
  have hcloser : Fits ":\x7ds" := ⟨by decide, by decide⟩
  refine ⟨⟨hfits, (attach_undone.1 _ _).mpr hfits⟩, hplain, hcloser, fun heq => ?_⟩
  obtain ⟨hpath, -⟩ := attach_undone.2 _ _ _ _ hplain hcloser heq
  exact absurd hpath (by decide)

end Address
end UnionFS
