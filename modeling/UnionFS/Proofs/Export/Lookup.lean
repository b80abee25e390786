import Mathlib
import UnionFS.Proofs.Export.Seclusion

/-!
# Listing and looking up

A directory is listed by going through its children, and an object is looked up by following a path.
The two come to the same: what a listing says of a child is what is found by the child's name below
the path of the directory, however that path is written and whatever links it leads through
(`lists_of_readdir`).  For that the path with one more name has to lead to the child that has this
name (`Leads.child`), and the name has to be one name still when it is part of a text
(`names_child`).  Children that the process cannot look at are not listed (`not_always_listed`).
-/

namespace UnionFS

/-! ## Names in texts -/

theorem Utf8.encode_append (a b : String) : encode (a ++ b) = encode a ++ encode b := by
  simp [encode]

theorem Utf8.slash_mem_encode {text : String} (h : '/' ∈ text.toList) :
    Name.slash ∈ encode text := by
  obtain ⟨front, back, hsplit⟩ := List.append_of_mem h
  have htext : text = String.ofList front ++ "/" ++ String.ofList back := by
    apply String.toList_injective
    simp [hsplit]
  have hslash : encode "/" = [Name.slash] := by decide
  rw [htext, encode_append, encode_append, hslash]
  simp

namespace Path

/-- **A name below a path comes after the names of the path.** -/
theorem names_child {path name : String} (h : Name.slash ∉ Utf8.encode name) :
    names (path ++ "/" ++ name) = names path ++ [Utf8.encode name] := by
  have hname : slashPieces name.toList = [name.toList] := by
    refine Text.pieces_of_none fun c hc => beq_eq_false_iff_ne.mpr ?_
    rintro rfl
    exact h (Utf8.slash_mem_encode hc)
  have htext : (path ++ "/" ++ name).toList = path.toList ++ '/' :: name.toList := by
    simp
  rw [names, htext, slashPieces, Text.pieces_append (by decide), ← slashPieces, ← slashPieces]
  rw [hname, List.map_append, ← names, List.map_singleton, nameOf, String.ofList_toList]

end Path

/-! ## One name more -/

namespace Tree

variable {t : Tree} {here q root : Path} {name : Name} {todo names : List Name} {k : Nat}
  {n : Node}

/-- **Where names lead to a directory, with one more they lead to the child of that name**, unless
it is a link. -/
theorem Leads.child (h : t.Leads here todo k q) (hdir : t.isDirectory q = true)
    (he : t.Enters q name n) (hn : ∀ target, n.content ≠ .link target) :
    t.Leads here (todo ++ [name]) k (q ++ [name]) := by
  induction h with
  | stop =>
      cases hcontent : n.content with
      | directory => exact .directory he hcontent .stop
      | file data => exact .file he hcontent
      | link target => exact absurd hcontent (hn target)
  | idle _ ih => exact .idle (ih hdir he)
  | stay hs _ ih => exact .stay hs (ih hdir he)
  | up hs _ ih => exact .up hs (ih hdir he)
  | directory he' hn' _ ih => exact .directory he' hn' (ih hdir he)
  | file he' hn' =>
      -- a file is no directory, and has no children
      obtain ⟨m, hm, hdir⟩ := isDirectory_eq_true.mp hdir
      rw [he'.found] at hm
      rw [← Option.some.inj hm, hn'] at hdir
      cases hdir
  | link he' hn' _ ih =>
      refine .link he' hn' ?_
      show t.Leads _ (_ ++ (_ ++ [name])) _ _
      rw [← List.append_assoc]
      exact ih hdir he

theorem IsRealpath.child (h : t.IsRealpath root names q) (hdir : t.isDirectory q = true)
    (he : t.Enters q name n) (hn : ∀ target, n.content ≠ .link target) (hzero : 0 ∉ name) :
    t.IsRealpath root (names ++ [name]) (q ++ [name]) := by
  obtain ⟨k, hk, hleads⟩ := h.leads
  refine ⟨?_, k, hk, ?_⟩
  · intro other hmem
    rcases List.mem_append.mp hmem with hmem | hmem
    · exact h.no_zero other hmem
    · rwa [List.mem_singleton.mp hmem]
  · have hname : name.orDot = name := if_neg (by simpa using he.proper.ne_nil)
    rw [List.map_append, List.map_singleton, hname, ← List.append_assoc]
    exact hleads.child hdir he hn

end Tree

namespace Export

open UnionFS.Path

variable {e : Export} {t : Tree} {path : String} {q : Path} {n : Node} {entries : List Entry}

/-- **The path of a directory with the name of a child is confined to the child**, unless that is a
link. -/
theorem confine_child (ht : t.WellFormed) (h : e.confine t path = .ok q)
    (hdir : t.isDirectory q = true) {name : String} (he : t.Enters q (Utf8.encode name) n)
    (hn : ∀ target, n.content ≠ .link target) :
    e.confine t (path ++ "/" ++ name) = .ok (q ++ [Utf8.encode name]) := by
  obtain ⟨hdown, hreal, hroot⟩ := confine_eq_ok_iff.mp h
  have hplain := he.isPlain ht
  have hnames : names (path ++ "/" ++ name) = names path ++ [Utf8.encode name] :=
    names_child hplain.no_slash
  have hbelow : namesBelow (path ++ "/" ++ name) = namesBelow path ++ [Utf8.encode name] := by
    rw [namesBelow, hnames, List.filter_append]
    rw [List.filter_cons_of_pos (by simpa using he.not_isIdle), List.filter_nil, ← namesBelow]
  refine confine_eq_ok_iff.mpr ⟨?_, ?_, hroot.trans (List.prefix_append _ _)⟩
  · rw [hnames]
    intro hmem
    rcases List.mem_append.mp hmem with hmem | hmem
    · exact hdown hmem
    · exact hplain.ne_dotDot (List.mem_singleton.mp hmem).symm
  · rw [hbelow]
    exact hreal.child hdir he hn hplain.no_zero

/-! ## Entries -/

theorem entry?_eq_some_iff {name : Name} {x : Entry} :
    entry? name n = some x ↔ name = Utf8.encode x.name ∧ x.stat = n.stat := by
  rw [ entry?, Option.map_eq_some_iff]
  constructor
  · rintro ⟨text, htext, rfl⟩
    exact ⟨Utf8.eq_encode_of_decode htext, rfl⟩
  · rintro ⟨rfl, hstat⟩
    exact ⟨x.name, Utf8.decode_encode x.name, by rw [← hstat]⟩

/-- What is listed of a directory are the children whose names are text and whose paths fit. -/
theorem mem_listing_iff (ht : t.WellFormed) {x : Entry} :
    x ∈ listing (within t q) ↔ fits (q ++ [Utf8.encode x.name]) = true
      ∧ ∃ n, t.lookup (q ++ [Utf8.encode x.name]) = some n ∧ x.stat = n.stat := by
  rw [listing, List.mem_mergeSort, List.mem_filterMap]
  constructor
  · rintro ⟨⟨name, n⟩, hmem, hentry⟩
    obtain ⟨rfl, hstat⟩ := entry?_eq_some_iff.mp hentry
    obtain ⟨hn, hfits⟩ := (mem_within ht).mp hmem
    exact ⟨hfits, n, hn, hstat⟩
  · rintro ⟨hfits, n, hn, hstat⟩
    exact ⟨(_, n), (mem_within ht).mpr ⟨hn, hfits⟩, entry?_eq_some_iff.mpr ⟨rfl, hstat⟩⟩

/-- No name is listed twice. -/
theorem nodup_listing (ht : t.WellFormed) : ((listing (within t q)).map (·.name)).Nodup := by
  have hnames : ((within t q).filterMap fun child => entry? child.1 child.2).map (·.name) =
      ((within t q).map (·.1)).filterMap Utf8.decode := by
    rw [List.map_filterMap, List.filterMap_map]
    refine congrArg (List.filterMap · (within t q)) (funext fun child => ?_)
    rw [ entry?, Option.map_map]
    exact Option.map_id'
  have hperm := (List.mergeSort_perm ((within t q).filterMap fun child => entry? child.1 child.2)
    fun a b => a.name ≤ b.name).map (·.name)
  refine hperm.nodup_iff.mpr ?_
  rw [hnames]
  refine List.Nodup.filterMap ?_ (List.Nodup.map_on ?_ (nodup_within ht))
  · intro name name' text htext htext'
    rw [Utf8.eq_encode_of_decode htext, Utf8.eq_encode_of_decode htext']
  · rintro ⟨name, n⟩ hmem ⟨name', n'⟩ hmem' rfl
    have hn := ((mem_within ht).mp hmem).1
    rw [((mem_within ht).mp hmem').1] at hn
    rw [Option.some.inj hn]

/-- **The names in a listing ascend.** -/
theorem ascending_listing (ht : t.WellFormed) :
    (listing (within t q)).Pairwise fun a b => a.name < b.name := by
  have hle := pairwise_listing (within t q)
  have hne := List.pairwise_map.mp (nodup_listing ht (q := q))
  exact (hle.and hne).imp fun h => Std.lt_of_le_of_ne h.1 h.2

/-! ## Listings and lookups -/

/-- The process can look at what there is at `q ++ [name]` by that path: it may search the directory
at `q`, and the path is not too long. -/
structure CanSee (t : Tree) (q : Path) (name : Name) : Prop where
  searchable : t.searchable q = true
  short : (Path.toBytes (q ++ [name])).length < Tree.pathLimit

/-- The entries are those of the directory at `q`, to which the path leads. -/
structure Lists (e : Export) (t : Tree) (path : String) (q : Path) (entries : List Entry) :
    Prop where
  confined : e.confine t path = .ok q
  directory : t.isDirectory q = true
  ascending : entries.Pairwise fun a b => a.name < b.name
  /-- The entries are the children that can be seen and whose names are text. -/
  children : ∀ x : Entry, x ∈ entries ↔ CanSee t q (Utf8.encode x.name)
    ∧ ∃ n, t.lookup (q ++ [Utf8.encode x.name]) = some n ∧ x.stat = n.stat
  /-- What is listed, and is no link, is found in the same way by its name below the path. -/
  found : ∀ x ∈ entries, ∀ n, t.lookup (q ++ [Utf8.encode x.name]) = some n →
    (∀ target, n.content ≠ .link target) → e.getattr t (path ++ "/" ++ x.name) = .ok x.stat

/-- A process lists of a directory that it may search the children whose paths fit, and of any other
none. -/
theorem listing_of_readdir (h : e.readdir t path = .ok entries) :
    ∃ q, e.confine t path = .ok q ∧ t.isDirectory q = true
      ∧ (t.searchable q = true ∧ entries = listing (within t q)
        ∨ t.searchable q = false ∧ entries = []) := by
  obtain ⟨q, n, hopens, hdir, hentries⟩ := readdir_eq_ok.mp h
  refine ⟨q, hopens.confined, ?_, ?_⟩
  · rw [Tree.isDirectory, hopens.found]
    exact hdir
  · have hsearchable : t.searchable q = t.grants n Access.execute := by
      rw [Tree.searchable, hopens.found]
      rfl
    rw [hsearchable]
    cases hgrants : t.grants n Access.execute with
    | true =>
        rw [hgrants] at hentries
        exact .inl ⟨rfl, hentries⟩
    | false =>
        rw [hgrants, if_neg Bool.false_ne_true, List.filterMap_nil, List.mergeSort_nil] at hentries
        exact .inr ⟨rfl, hentries⟩

/-- **Listing a directory and looking up its children agree.** -/
theorem lists_of_readdir (ht : t.WellFormed) (h : e.readdir t path = .ok entries) :
    ∃ q, e.Lists t path q entries := by
  obtain ⟨q, hconfined, hdir, hentries⟩ := listing_of_readdir h
  have hchildren (x : Entry) : x ∈ entries ↔ CanSee t q (Utf8.encode x.name)
      ∧ ∃ n, t.lookup (q ++ [Utf8.encode x.name]) = some n ∧ x.stat = n.stat := by
    rcases hentries with ⟨hsearch, rfl⟩ | ⟨hsearch, rfl⟩
    · rw [mem_listing_iff ht, fits, decide_eq_true_iff]
      exact and_congr_left fun _ => ⟨fun hshort => ⟨hsearch, hshort⟩, fun hsee => hsee.short⟩
    · refine iff_of_false List.not_mem_nil fun hx => ?_
      exact Bool.false_ne_true (hsearch.symm.trans hx.1.searchable)
  refine ⟨q, hconfined, hdir, ?_, hchildren, ?_⟩
  · rcases hentries with ⟨-, rfl⟩ | ⟨-, rfl⟩
    · exact ascending_listing ht
    · exact .nil
  · intro x hx n hn hlink
    obtain ⟨hsee, m, hm, hstat⟩ := (hchildren x).mp hx
    obtain rfl := Option.some.inj (hm.symm.trans hn)
    have hchild := confine_child ht hconfined hdir (ht.enters hsee.searchable hm) hlink
    exact getattr_eq_ok.mpr ⟨_, m, hchild, hm, hstat⟩

/-- A directory with a file in it, and a link to the directory. -/
def sampleLinkedTo : Tree :=
  (sampleBare.put [[100], [102]] { content := .file [1], permissions := 0o644 }).put [[108]]
    { content := .link [100], permissions := 0o777 }

/-- An export of all of it, in the name of the superuser. -/
def sampleWhole : Export := ⟨[], ⟨"root", 0, 0⟩, 4096, 1048576⟩

theorem wellFormed_sampleLinkedTo : sampleLinkedTo.WellFormed := by
  have hfile : Name.IsPlain [102] := isPlain_of_singleton (by decide) (by decide) (by decide)
  have hlink : Name.IsPlain [108] := isPlain_of_singleton (by decide) (by decide) (by decide)
  have hbare : sampleBare.isDirectory [[100]] = true := by decide
  have hwell := mounted_sampleBare.wellFormed.put hbare hfile (by decide)
    { content := .file [1], permissions := 0o644 }
  have hroot : (sampleBare.put ([[100]] ++ [[102]])
      { content := .file [1], permissions := 0o644 }).isDirectory [] = true := by decide
  exact hwell.put hroot hlink (by decide) _

theorem lists_of_readdir_sample :
    sampleLinkedTo.WellFormed
      ∧ sampleWhole.readdir sampleLinkedTo "//l/." = .ok [⟨"f", { mode := 0o100644, size := 1 }⟩]
      ∧ (∃ q, sampleWhole.Lists sampleLinkedTo "//l/." q
          [⟨"f", { mode := 0o100644, size := 1 }⟩])
      ∧ sampleWhole.getattr sampleLinkedTo "//l/./f" = .ok { mode := 0o100644, size := 1 } := by
  have hlisted : sampleWhole.readdir sampleLinkedTo "//l/." =
      .ok [⟨"f", { mode := 0o100644, size := 1 }⟩] := by cbv
  have hlists := lists_of_readdir wellFormed_sampleLinkedTo hlisted
  refine ⟨wellFormed_sampleLinkedTo, hlisted, hlists, ?_⟩
  cbv

/-- A directory for a process that may read it but not search it. -/
def sampleShut : Tree :=
  { sampleRoot with privileged := false }.put [[100]] { content := .directory, permissions := 0o444 }

/-- With a file in it. -/
def sampleShutIn : Tree :=
  sampleShut.put [[100], [102]] { content := .file [1], permissions := 0o644 }

theorem wellFormed_sampleShutIn : sampleShutIn.WellFormed := by
  have hname : Name.IsPlain [100] := isPlain_of_singleton (by decide) (by decide) (by decide)
  have hfile : Name.IsPlain [102] := isPlain_of_singleton (by decide) (by decide) (by decide)
  have hroot : ({ sampleRoot with privileged := false } : Tree).WellFormed := by
    obtain ⟨hdistinct, hroot, hparent, hplain⟩ := wellFormed_sampleRoot
    exact ⟨hdistinct, hroot, hparent, hplain⟩
  have habove : ({ sampleRoot with privileged := false } : Tree).isDirectory [] = true := by decide
  have hshut : sampleShut.WellFormed := hroot.put habove hname (by decide) _
  have hdir : sampleShut.isDirectory [[100]] = true := by decide
  exact hshut.put hdir hfile (by decide) _

/-- **A listing can leave out children whose names are text**: those that the process cannot see. -/
theorem not_always_listed :
    ¬ ∀ (e : Export) (t : Tree) (path : String) (q : Path) (entries : List Entry), t.WellFormed →
      e.confine t path = .ok q → e.readdir t path = .ok entries → ∀ x : Entry,
      x ∈ entries ↔ ∃ n, t.lookup (q ++ [Utf8.encode x.name]) = some n ∧ x.stat = n.stat := by
  intro h
  have hconfined : sampleWhole.confine sampleShutIn "d" = .ok [[100]] := by cbv
  have hlisted : sampleWhole.readdir sampleShutIn "d" = .ok [] := by cbv
  have hfile : sampleShutIn.lookup [[100], Utf8.encode "f"] =
      some { content := .file [1], permissions := 0o644 } := by decide
  have hmem := (h sampleWhole sampleShutIn "d" _ _ wellFormed_sampleShutIn hconfined hlisted
    ⟨"f", _⟩).mpr ⟨_, hfile, rfl⟩
  exact List.not_mem_nil hmem

end Export

end UnionFS
