import UnionFS.Export.Serve
import UnionFS.Proofs.Export.Success
import UnionFS.Proofs.Path
import UnionFS.Proofs.Tree.Outline
import UnionFS.Proofs.Wire.States

/-!
# Confinement

A session reaches nothing but what stands below the root of its export, whatever links there are and
whatever it sends.

* `confine_eq_ok_iff`: the paths that are let through, and what they are confined to;
* `keeps_serve`: what stands outside stays as it is, whatever command is served on whatever input;
* `alike_serve`: a server sends the same for trees that are the same below the root and confine
  paths in the same way, so nothing else of what stands outside shows in a reply;
* `confinement` says all of it in one statement.
-/

namespace UnionFS.Export

open Dialogue Wire

variable {e : Export} {t t' : Tree} {path : String} {q : Path} {n : Node}

/-! ## Which paths are let through -/

/-- The names below the root that a path stands for. -/
def namesBelow (path : String) : List Name := (Path.names path).filter (!·.isIdle)

theorem namesBelow_ne_nil {name : Name} (h : name ∈ namesBelow path) : name ≠ [] := by
  intro hnil
  have hidle := (List.mem_filter.mp h).2
  rw [hnil] at hidle
  exact absurd hidle (by decide)

theorem confine_of_upwards (h : Name.dotDot ∈ Path.names path) :
    e.confine t path = .error .accessDenied := by
  rw [confine, Path.relative_eq, if_pos (Path.dotDot_mem_names.mp h)]
  rfl

theorem confine_of_safe (h : Name.dotDot ∉ Path.names path) :
    e.confine t path = t.realpath e.root (namesBelow path) >>= fun q =>
      if e.root.isPrefixOf q then .ok q else .error .accessDenied := by
  rw [confine, Path.relative_eq, if_neg fun hmem => h (Path.dotDot_mem_names.mpr hmem),
    namesBelow, Path.names_filter]
  rfl

/-- **A path is let through exactly if none of its names leads upwards and its realpath is below the
root**, and it is confined to that. -/
theorem confine_eq_ok_iff : e.confine t path = .ok q ↔
    Name.dotDot ∉ Path.names path
      ∧ t.IsRealpath e.root (Name.dot :: namesBelow path) q ∧ e.root <+: q := by
  rw [← Tree.realpath_eq_ok_iff fun name => namesBelow_ne_nil]
  by_cases hup : Name.dotDot ∈ Path.names path
  · rw [confine_of_upwards hup]
    constructor
    · intro h
      cases h
    · intro h
      exact absurd hup h.1
  · rw [confine_of_safe hup, bind_eq_ok]
    constructor
    · rintro ⟨q', hq', h⟩
      obtain ⟨hp, rfl⟩ := ite_eq_ok.mp h
      exact ⟨hup, hq', List.isPrefixOf_iff_prefix.mp hp⟩
    · rintro ⟨-, hq, hp⟩
      exact ⟨q, hq, ite_eq_ok.mpr ⟨List.isPrefixOf_iff_prefix.mpr hp, rfl⟩⟩

/-- A path whose realpath is elsewhere is refused in the same way as one that leads upwards. -/
theorem confine_of_outside (h : t.IsRealpath e.root (Name.dot :: namesBelow path) q)
    (hq : ¬ e.root <+: q) : e.confine t path = .error .accessDenied := by
  by_cases hup : Name.dotDot ∈ Path.names path
  · exact confine_of_upwards hup
  · rw [confine_of_safe hup, (Tree.realpath_eq_ok_iff fun name => namesBelow_ne_nil).mpr h]
    exact if_neg fun hp => hq (List.isPrefixOf_iff_prefix.mp hp)

theorem names_ne_nil (path : String) : Path.names path ≠ [] := by
  intro h
  exact Text.pieces_ne_nil _ _ (List.map_eq_nil_iff.mp h)

/-! ## What is changed -/

/-- The trees have the same objects outside the root. -/
def Untouched (e : Export) (t t' : Tree) : Prop :=
  ∀ p, ¬ e.root <+: p → t'.lookup p = t.lookup p

theorem Untouched.writeAt (h : e.Untouched t t') (hq : e.root <+: q) (offset : UInt64)
    (data : Bytes) : e.Untouched t (Export.writeAt q offset data t').2 := by
  unfold Export.writeAt
  split
  · exact h
  · intro p hp
    have hne : p ≠ q := by
      rintro rfl
      exact hp hq
    rw [Tree.lookup_modify, if_neg hne]
    exact h p hp

theorem prefix_of_openForWrite {size : UInt64} (h : e.openForWrite t path size = .ok q) :
    e.root <+: q := by
  obtain ⟨-, n, hopen, -⟩ := openForWrite_eq_ok.mp h
  exact isPrefix_of_confine hopen.confined

theorem stateless_readPath (e : Export) : Stateless e.readPath := by
  refine .bind stateless_readSize fun length => .bind (stateless_readBlock _ _) fun bytes => ?_
  split
  · exact .done _
  · exact .done _

/-- What is served keeps all that writing below the root keeps. -/
theorem keeps_serve_of {W : Tree → Tree → Prop}
    (hW : ∀ r s q offset data, e.root <+: q → W r s → W r (writeAt q offset data s).2)
    (c : Command) (t : Tree) : (e.serve c).Keeps W t := by
  have hpath (s : Tree) : e.readPath.Keeps W s := e.stateless_readPath.keeps W s
  have hsize (s : Tree) : Keeps W readSize s := stateless_readSize.keeps W s
  have hmask (s : Tree) : Keeps W readMask s := stateless_readMask.keeps W s
  cases c with
  | getattr | readdir => exact (hpath t).bind fun path _ => (Keeps.inspect _).bind fun _ _ => .say _
  | access | openFile =>
      exact (hpath t).bind fun path r => (hmask r).bind fun mask _ =>
        (Keeps.inspect _).bind fun _ _ => .say _
  | read =>
      exact (hpath t).bind fun path r => (hsize r).bind fun size s => (hsize s).bind fun offset _ =>
        (Keeps.inspect _).bind fun _ _ => .say _
  | write =>
      refine (hpath t).bind fun path r => (hsize r).bind fun size s => ?_
      refine (hsize s).bind fun offset found => ?_
      refine Keeps.inspect_bind ?_
      split
      · exact .say _
      · next q hq =>
        -- the file was opened below the root, and stays the one that is written to
        have hroot : e.root <+: q := by
          cases path with
          | error c => cases hq
          | ok path => exact prefix_of_openForWrite hq
        refine (Keeps.say _).bind fun _ u => ?_
        refine ((stateless_readBlock _ _).keeps W u).bind fun data v => ?_
        refine (Keeps.update fun r hr => ?_).bind fun _ _ => .say _
        exact hW r v q offset data hroot hr
  | _ => trivial

/-- **Whatever is served, what stands outside the root stays as it is.** -/
theorem keeps_serve (e : Export) (t : Tree) (c : Command) : (e.serve c).Keeps e.Untouched t :=
  keeps_serve_of (fun _ _ _ offset data hroot h => h.writeAt hroot offset data) c t

/-! ## What shows in replies -/

/-- The entries of the children of a directory, by name. -/
def listing (children : List (Name × Node)) : List Entry :=
  (children.filterMap fun (name, n) => entry? name n).mergeSort fun a b => a.name ≤ b.name

/-- The objects below the root. -/
def inside (e : Export) (t : Tree) : List (Path × Node) :=
  t.nodes.filter fun x => e.root.isPrefixOf x.1

/-- The trees are the same below the root, and outside they differ at most in what no path through
the export depends on. -/
structure SameInside (e : Export) (t t' : Tree) : Prop where
  privileged : t.privileged = t'.privileged
  inside : e.inside t = e.inside t'
  confine : ∀ path, e.confine t path = e.confine t' path

theorem confine_congr (h : t.SameOutline t') (path : String) :
    e.confine t path = e.confine t' path := by
  simp only [confine, Tree.realpath_congr h]

/-- A request changes the data of one file at most. -/
theorem sameOutline_perform (e : Export) (t : Tree) (r : Request) :
    t.SameOutline (e.perform t r).2 := by
  cases r with
  | write path data offset =>
      rw [perform, write]
      split
      · exact .refl t
      · rw [writeAt]
        split
        · exact .refl t
        · exact (Tree.SameOutline.modify (.refl t) _ _ _).symm
  | _ => exact .refl t

/-- A path opens like objects in trees of the same outline. -/
theorem Opens.congr {mask : UInt32} (hopens : e.Opens t path mask q n) (h : t.SameOutline t') :
    ∃ m, e.Opens t' path mask q m ∧ n.outline = m.outline := by
  obtain ⟨m, hm, hnm⟩ := h.lookup hopens.found
  have hmode : n.mode = m.mode := by rw [← n.mode_outline, hnm, m.mode_outline]
  have howner : n.outline.owner = m.outline.owner := congrArg Node.owner hnm
  have hgroup : n.outline.group = m.outline.group := congrArg Node.group hnm
  have hpermitted := hopens.permitted
  rw [hmode, show n.owner = m.owner from howner, show n.group = m.group from hgroup] at hpermitted
  refine ⟨m, ⟨?_, hm, hpermitted, ?_⟩, hnm⟩
  · rw [← confine_congr h]
    exact hopens.confined
  · rw [← Tree.grants_congr h hnm]
    exact hopens.granted

/-- Whether a file is opened for writing does not depend on the data of files. -/
theorem openForWrite_of_sameOutline {size : UInt64} (h : t.SameOutline t')
    (hopen : e.openForWrite t path size = .ok q) : e.openForWrite t' path size = .ok q := by
  obtain ⟨hsize, n, hopens, hdir⟩ := openForWrite_eq_ok.mp hopen
  obtain ⟨m, hopens', hnm⟩ := hopens.congr h
  refine openForWrite_eq_ok.mpr ⟨hsize, m, hopens', ?_⟩
  rw [← m.isDirectory_outline, ← hnm, n.isDirectory_outline, hdir]

theorem lookup_inside (hq : e.root <+: q) : (e.inside t).lookup q = t.lookup q := by
  have h := Tree.lookup_filter t (e.root.isPrefixOf ·) q
  rw [if_pos (List.isPrefixOf_iff_prefix.mpr hq)] at h
  exact h

/-- The children of a directory below the root are below it too. -/
theorem children_inside (hq : e.root <+: q) :
    t.children q = ({ t with nodes := e.inside t } : Tree).children q := by
  rw [Tree.children, Tree.children, inside, List.filterMap_filter]
  refine congrArg (List.filterMap · t.nodes) (funext fun x => ?_)
  obtain ⟨p, n⟩ := x
  dsimp only
  by_cases hp : e.root.isPrefixOf p = true
  · rw [if_pos hp]
  · rw [if_neg hp]
    split
    · refine if_neg ?_
      intro hd
      rw [← eq_of_beq hd] at hq
      exact hp (List.isPrefixOf_iff_prefix.mpr (hq.trans (List.dropLast_prefix p)))
    · rfl

/-- A path leads to the same object in both trees, or is refused in the same way, and the trees are
those of the same process. -/
structure SameAt (e : Export) (t t' : Tree) (path : String) : Prop where
  privileged : t.privileged = t'.privileged
  resolve : e.resolve t path = e.resolve t' path

namespace SameAt

variable (h : e.SameAt t t' path)

include h

theorem granted (n : Node) (mask : UInt32) :
    Export.granted t n mask = Export.granted t' n mask := by
  rw [Export.granted, Export.granted, Tree.grants, Tree.grants, h.privileged]

theorem getattr : e.getattr t path = e.getattr t' path := by
  rw [Export.getattr, Export.getattr, h.resolve]

theorem access (mask : UInt32) : e.access t path mask = e.access t' path mask := by
  rw [Export.access, Export.access, h.resolve]

theorem read (size offset : UInt64) : e.read t path size offset = e.read t' path size offset := by
  simp only [Export.read, h.resolve, h.granted]

theorem openForWrite (size : UInt64) : e.openForWrite t path size = e.openForWrite t' path size := by
  simp only [Export.openForWrite, h.resolve, h.granted]

theorem openFile (flags : UInt32) : e.openFile t path flags = e.openFile t' path flags := by
  simp only [Export.openFile, h.resolve, h.granted]

/-- A directory is listed in the same way if its children make the same listing. -/
theorem readdir (hlisting : ∀ q, e.root <+: q → Export.listing (Export.within t q) =
    Export.listing (Export.within t' q)) : e.readdir t path = e.readdir t' path := by
  rw [Export.readdir, Export.readdir, h.resolve]
  cases hr : e.resolve t' path with
  | error c => rfl
  | ok found =>
      obtain ⟨q, n⟩ := found
      have hq := hlisting q (isPrefix_of_confine (resolve_eq_ok.mp hr).1)
      have hgrants : t.grants n Access.execute = t'.grants n Access.execute := by
        rw [Tree.grants, Tree.grants, h.privileged]
      dsimp only [bind, Except.bind]
      rw [h.granted, hgrants]
      by_cases hexecute : t'.grants n Access.execute = true
      · rw [if_pos hexecute, if_pos hexecute]
        simp only [Export.listing] at hq
        rw [hq]
      · rw [if_neg hexecute, if_neg hexecute]

end SameAt

namespace SameInside

theorem lookup (h : e.SameInside t t') (hq : e.root <+: q) : t.lookup q = t'.lookup q := by
  rw [← lookup_inside hq, h.inside, lookup_inside hq]

theorem children (h : e.SameInside t t') (hq : e.root <+: q) : t.children q = t'.children q := by
  rw [children_inside hq, h.inside, children_inside hq (t := t')]
  rfl

theorem sameAt (h : e.SameInside t t') (path : String) : e.SameAt t t' path := by
  refine ⟨h.privileged, ?_⟩
  rw [Export.resolve, Export.resolve, h.confine path]
  cases hq : e.confine t' path with
  | error c => rfl
  | ok q =>
      dsimp only [bind, Except.bind]
      rw [h.lookup (isPrefix_of_confine hq)]

theorem readdir (h : e.SameInside t t') (path : String) :
    e.readdir t path = e.readdir t' path :=
  (h.sameAt path).readdir fun q hq => by rw [within, within, h.children hq]

theorem modify (h : e.SameInside t t') (q : Path) (offset : Nat) (data : Bytes) :
    e.SameInside (t.modify q (·.overlay offset data)) (t'.modify q (·.overlay offset data)) := by
  refine ⟨h.privileged, ?_, fun path => ?_⟩
  · have key (s : Tree) : e.inside (s.modify q (·.overlay offset data)) =
        (e.inside s).map fun x => (x.1, if x.1 == q then x.2.overlay offset data else x.2) := by
      rw [Export.inside, Tree.modify, List.filter_map]
      rfl
    rw [key, key, h.inside]
  · -- a write changes no link and no permission, so that paths lead where they led
    have keep (s : Tree) : (s.modify q (·.overlay offset data)).SameOutline s :=
      Tree.SameOutline.modify (.refl _) q offset data
    rw [confine_congr (keep t), confine_congr (keep t'), h.confine]

theorem writeAt (h : e.SameInside t t') (q : Path) (offset : UInt64) (data : Bytes) :
    (Export.writeAt q offset data t).1 = (Export.writeAt q offset data t').1
      ∧ e.SameInside (Export.writeAt q offset data t).2 (Export.writeAt q offset data t').2 := by
  unfold Export.writeAt
  split
  · exact ⟨rfl, h⟩
  · exact ⟨rfl, h.modify q _ data⟩

end SameInside

/-- On related trees the export gives related answers, and writes leave related trees. -/
structure Answers (e : Export) (S : Bytes → Bytes → Prop) (R : Tree → Tree → Prop) : Prop where
  same : ∀ b, S b b
  getattr : ∀ t t', R t t' → ∀ path, S (replyStat (e.getattr t path)) (replyStat (e.getattr t' path))
  readdir : ∀ t t', R t t' → ∀ path,
    S (replyEntries (e.readdir t path)) (replyEntries (e.readdir t' path))
  access : ∀ t t', R t t' → ∀ path mask, e.access t path mask = e.access t' path mask
  read : ∀ t t', R t t' → ∀ path size offset, e.read t path size offset = e.read t' path size offset
  openFile : ∀ t t', R t t' → ∀ path flags, e.openFile t path flags = e.openFile t' path flags
  openForWrite : ∀ t t', R t t' → ∀ path size,
    e.openForWrite t path size = e.openForWrite t' path size
  writeAt : ∀ t t', R t t' → ∀ q offset data,
    (Export.writeAt q offset data t).1 = (Export.writeAt q offset data t').1
      ∧ R (Export.writeAt q offset data t).2 (Export.writeAt q offset data t').2

/-- **A server that cannot tell trees apart sends what is related**, whatever it serves. -/
theorem Answers.alike_serve {S : Bytes → Bytes → Prop} {R : Tree → Tree → Prop}
    (ha : e.Answers S R) (h : R t t') (c : Command) :
    Alike S R (e.serve c) t (e.serve c) t' := by
  have hpath {s s' : Tree} (hs : R s s') : Alike S R e.readPath s e.readPath s' :=
    e.stateless_readPath.alike S R s s' ha.same hs
  have hsize {s s' : Tree} (hs : R s s') : Alike S R readSize s readSize s' :=
    stateless_readSize.alike S R s s' ha.same hs
  have hmask {s s' : Tree} (hs : R s s') : Alike S R readMask s readMask s' :=
    stateless_readMask.alike S R s s' ha.same hs
  -- a path that is no text is answered without a look at the tree
  have hbind {α : Type} {form : Outcome α → Bytes} {f f' : String → Outcome α}
      (hf : ∀ p, S (form (f p)) (form (f' p))) (path : Outcome String) :
      S (form (path.bind f)) (form (path.bind f')) := by
    cases path with
    | ok p => exact hf p
    | error c => exact ha.same _
  have hsame {α : Type} {form : α → Bytes} {a a' : α} (heq : a = a') : S (form a) (form a') :=
    heq ▸ ha.same _
  cases c with
  | getattr =>
      exact (hpath h).bind fun path s s' hs => .answer hs (hbind (ha.getattr s s' hs) path)
  | readdir =>
      exact (hpath h).bind fun path s s' hs => .answer hs (hbind (ha.readdir s s' hs) path)
  | access =>
      refine (hpath h).bind fun path s s' hs => (hmask hs).bind fun mask r r' hr => .answer hr ?_
      exact hbind (fun p => hsame (ha.access r r' hr p mask)) path
  | openFile =>
      refine (hpath h).bind fun path s s' hs => (hmask hs).bind fun mask r r' hr => .answer hr ?_
      exact hbind (fun p => hsame (ha.openFile r r' hr p mask)) path
  | read =>
      refine (hpath h).bind fun path s s' hs => (hsize hs).bind fun size r r' hr => ?_
      refine (hsize hr).bind fun offset u u' hu => .answer hu ?_
      exact hbind (fun p => hsame (ha.read u u' hu p size offset)) path
  | write =>
      refine (hpath h).bind fun path s s' hs => (hsize hs).bind fun size r r' hr => ?_
      refine (hsize hr).bind fun offset u u' hu => ?_
      refine (Alike.inspect hu ?_).bind fun opened v v' hv => ?_
      · exact congrArg path.bind (funext fun p => ha.openForWrite u u' hu p size)
      · split
        · exact .say (ha.same _) hv
        · refine (Alike.say (ha.same _) hv).bind fun _ w w' hw => ?_
          refine ((stateless_readBlock _ _).alike S R w w' ha.same hw).bind fun data x x' hx => ?_
          obtain ⟨hvalue, hstate⟩ := ha.writeAt x x' hx _ _ data
          exact (Alike.update hvalue hstate).bind fun _ _ _ hy => .say (ha.same _) hy
  | _ => exact .done () h

/-- Trees that are the same inside cannot be told apart. -/
theorem answers_sameInside (e : Export) : e.Answers Eq e.SameInside where
  same _ := rfl
  getattr _ _ h path := congrArg replyStat (h.sameAt path).getattr
  readdir _ _ h path := congrArg replyEntries (h.readdir path)
  access _ _ h path mask := (h.sameAt path).access mask
  read _ _ h path size offset := (h.sameAt path).read size offset
  openFile _ _ h path flags := (h.sameAt path).openFile flags
  openForWrite _ _ h path size := (h.sameAt path).openForWrite size
  writeAt _ _ h q offset data := h.writeAt q offset data

/-- **A server cannot tell trees apart that are the same inside**, whatever it serves. -/
theorem alike_serve (h : e.SameInside t t') (c : Command) :
    Alike Eq e.SameInside (e.serve c) t (e.serve c) t' :=
  e.answers_sameInside.alike_serve h c

/-! ## All of it -/

/-- What confinement means for an export of a tree. -/
structure Confinement (e : Export) (t : Tree) : Prop where
  accepts : ∀ path q, e.confine t path = .ok q ↔
    Name.dotDot ∉ Path.names path
      ∧ t.IsRealpath e.root (Name.dot :: namesBelow path) q ∧ e.root <+: q
  /-- Where the path as it is written has a realpath, it is the one that counts. -/
  written : ∀ path q, t.IsRealpath e.root (Path.names path) q →
    t.IsRealpath e.root (Name.dot :: namesBelow path) q
  upwards : ∀ path, Name.dotDot ∈ Path.names path → e.confine t path = .error .accessDenied
  outside : ∀ path q, t.IsRealpath e.root (Name.dot :: namesBelow path) q → ¬ e.root <+: q →
    e.confine t path = .error .accessDenied
  canonical : t.WellFormed → ∀ path q, e.confine t path = .ok q → t.IsCanonical q
  /-- Whatever is served on whatever input, nothing outside the root changes. -/
  untouched : ∀ c input, e.Untouched t ((e.serve c).feed input t).state
  /-- A listing is of a directory below the root, and has its children only. -/
  listed : ∀ path entries, e.readdir t path = .ok entries →
    ∃ q, e.root <+: q ∧ t.isDirectory q = true
      ∧ ∀ x ∈ entries, ∃ name n, (q ++ [name], n) ∈ t.nodes ∧ entry? name n = some x
  /-- Data that are read are those of an object below the root. -/
  shown : ∀ path size offset data, e.read t path size offset = .ok data →
    ∃ q n, e.root <+: q ∧ t.lookup q = some n ∧ data = n.data.slice offset.toNat size.toNat
  /-- Nothing that stands outside makes a difference to what is sent, but for where links lead. -/
  silent : ∀ t', e.SameInside t t' → ∀ c input,
    ((e.serve c).feed input t).sent = ((e.serve c).feed input t').sent
  /-- In particular, the contents of the files there make none at all. -/
  contents : ∀ t', t.SameOutline t' → e.inside t = e.inside t' → ∀ c input,
    ((e.serve c).feed input t).sent = ((e.serve c).feed input t').sent

/-- **Every export of every tree is confined to its root.** -/
theorem confinement (e : Export) (t : Tree) : e.Confinement t where
  accepts _ _ := confine_eq_ok_iff
  written path _ h := h.drop_idle (names_ne_nil path)
  upwards _ := confine_of_upwards
  outside _ _ := confine_of_outside
  canonical ht path q h := by
    obtain ⟨-, hreal, -⟩ := confine_eq_ok_iff.mp h
    obtain ⟨k, -, hleads⟩ := hreal.leads
    exact hleads.isCanonical ht ht.root
  untouched c input := (e.keeps_serve t c).feed input fun _ _ => rfl
  listed path entries h := by
    obtain ⟨q, n, hopen, hdir, rfl⟩ := readdir_eq_ok.mp h
    refine ⟨q, isPrefix_of_confine hopen.confined, ?_, fun x hx => ?_⟩
    · rw [Tree.isDirectory, hopen.found]
      exact hdir
    · obtain ⟨⟨name, child⟩, hmem, hentry⟩ := List.mem_filterMap.mp (List.mem_mergeSort.mp hx)
      refine ⟨name, child, Tree.mem_nodes_of_mem_children ?_, hentry⟩
      split at hmem
      · exact (List.mem_filter.mp hmem).1
      · cases hmem
  shown path size offset data h := by
    obtain ⟨-, -, q, n, hopen, -, hdata⟩ := read_eq_ok.mp h
    exact ⟨q, n, isPrefix_of_confine hopen.confined, hopen.found, hdata⟩
  silent t' h c input := ((alike_serve h c).feed input).1.eq
  contents t' h hin c input := by
    have hsame : e.SameInside t t' := ⟨h.privileged, hin, confine_congr h⟩
    exact ((alike_serve hsame c).feed input).1.eq

end UnionFS.Export
