import UnionFS.Keys.Peer
import UnionFS.Proofs.Keyed

/-!
# Peers of a key directory

A key file names a peer if its name ends as it should and its content can be read, is text and has
the right form (`KeyFile`).  The peers of a directory are told by that alone: of the files that name
a host the one with the least name counts, and the peers stand in the order of these names
(`loads`).  A file that names none, whatever it is called and whatever it holds, makes no
difference (`FirstNamed.unique`).

The files are sorted by name, and what is kept of each host is the first.  So it is the one of the
least name (`mem_firsts_iff`), and what is kept stays in order.
-/

namespace UnionFS.Peer

/-- Of all names that lead to a peer of this host, this is the least. -/
structure First (names : Name → Peer → Prop) (name : Name) (p : Peer) : Prop where
  leads : names name p
  least : ∀ name' p', names name' p' → p'.hostname = p.hostname → name ≤ name'

/-- The peers that some names lead to, one of each host. -/
structure FirstNamed (names : Name → Peer → Prop) (peers : List Peer) : Prop where
  /-- No host occurs twice. -/
  distinct : (peers.map (·.hostname)).Nodup
  /-- A host occurs if some name leads to a peer of it. -/
  hosts : ∀ host, host ∈ peers.map (·.hostname) ↔ ∃ name p, names name p ∧ p.hostname = host
  /-- Its peer is the one that the least of these names leads to. -/
  first : ∀ p, p ∈ peers ↔ ∃ name, First names name p
  /-- They stand in the order of these names. -/
  ascending : ∃ named : List (Name × Peer), named.Pairwise (fun x y => x.1 < y.1)
    ∧ (∀ x, x ∈ named ↔ First names x.1 x.2) ∧ peers = named.map (·.2)

variable {names : Name → Peer → Prop} {peers peers' : List Peer} {l : List (Name × Peer)}
  {x : Name × Peer}

/-- **The peers are told by the names that lead to them.** -/
theorem FirstNamed.unique (h : FirstNamed names peers) (h' : FirstNamed names peers') :
    peers = peers' := by
  obtain ⟨named, hsorted, hmem, rfl⟩ := h.ascending
  obtain ⟨named', hsorted', hmem', rfl⟩ := h'.ascending
  have hnodup {named : List (Name × Peer)} (h : named.Pairwise fun x y => x.1 < y.1) :
      named.Nodup := by
    refine h.imp fun {x y} hlt heq => ?_
    rw [heq] at hlt
    exact Std.lt_irrefl hlt
  have hperm : named.Perm named' :=
    (List.perm_ext_iff_of_nodup (hnodup hsorted) (hnodup hsorted')).mpr fun x =>
      (hmem x).trans (hmem' x).symm
  exact congrArg _ (List.Perm.eq_of_pairwise
    (fun x y _ _ hxy hyx => absurd (Std.lt_trans hxy hyx) Std.lt_irrefl) hsorted hsorted' hperm)

/-! ## The first of a sorted list -/

/-- **Of a list in the order of its names what is kept of a host is the one of the least name.** -/
theorem mem_firsts_iff (hsorted : l.Pairwise fun x y => x.1 ≤ y.1)
    (hfunctional : ∀ x ∈ l, ∀ y ∈ l, x.1 = y.1 → x = y) :
    x ∈ firstsBy (·.2.hostname) l ↔ First (fun name p => (name, p) ∈ l) x.1 x.2 := by
  have hfirst {x : Name × Peer} (hx : x ∈ firstsBy (·.2.hostname) l) :
      First (fun name p => (name, p) ∈ l) x.1 x.2 := by
    obtain ⟨-, before, after, rfl, hnone⟩ :=
      List.find?_eq_some_iff_append.mp (mem_firstsBy_iff.mp hx)
    obtain ⟨-, hafter, -⟩ := List.pairwise_append.mp hsorted
    refine ⟨List.mem_append_right _ List.mem_cons_self, fun name p hp hhost => ?_⟩
    rcases List.mem_append.mp hp with hp | hp
    · -- no peer before this one is of its host
      have hne := hnone _ hp
      simp [hhost] at hne
    · rcases List.mem_cons.mp hp with heq | hp
      · rw [← heq]
        exact Std.le_refl _
      · exact (List.pairwise_cons.mp hafter).1 _ hp
  refine ⟨hfirst, fun h => ?_⟩
  -- some peer of the host is kept, and no name is below its name
  obtain ⟨y, hy, hhost⟩ : ∃ y ∈ firstsBy (·.2.hostname) l, y.2.hostname = x.2.hostname :=
    exists_mem_firstsBy h.leads
  have hyfirst := hfirst hy
  have hname : y.1 = x.1 :=
    Std.le_antisymm (hyfirst.least _ _ h.leads hhost.symm) (h.least _ _ hyfirst.leads hhost)
  rw [← hfunctional y hyfirst.leads x h.leads hname]
  exact hy

theorem firstNamed_firsts (hsorted : l.Pairwise fun x y => x.1 ≤ y.1)
    (hfunctional : ∀ x ∈ l, ∀ y ∈ l, x.1 = y.1 → x = y) :
    FirstNamed (fun name p => (name, p) ∈ l) ((firstsBy (·.2.hostname) l).map (·.2)) := by
  have hmem (x : Name × Peer) : x ∈ firstsBy (·.2.hostname) l ↔ _ :=
    mem_firsts_iff hsorted hfunctional
  have hdistinct : ((firstsBy (·.2.hostname) l).map fun x => x.2.hostname).Nodup :=
    nodup_firstsBy _ l
  have hsub := firstsBy_sublist (fun x : Name × Peer => x.2.hostname) l
  refine
    { distinct := ?_
      hosts := fun host => ?_
      first := fun p => ?_
      ascending := ⟨firstsBy (·.2.hostname) l, ?_, hmem, rfl⟩ }
  · rw [List.map_map]
    exact hdistinct
  · rw [List.map_map]
    refine mem_map_firstsBy_iff.trans ?_
    rw [List.mem_map, Prod.exists]
    exact Iff.rfl
  · rw [List.mem_map, Prod.exists]
    constructor
    · rintro ⟨name, p, hp, rfl⟩
      exact ⟨name, (hmem _).mp hp⟩
    · rintro ⟨name, hname⟩
      exact ⟨name, p, (hmem (name, p)).mpr hname, rfl⟩
  · -- names in order ascend, for there is none twice
    have hapart : (firstsBy (·.2.hostname) l).Pairwise fun x y => x ≠ y :=
      List.Nodup.of_map _ hdistinct
    refine ((hsorted.sublist hsub).and hapart).imp_of_mem fun {x y} hx hy hxy => ?_
    refine Std.lt_of_le_of_ne hxy.1 fun hname => hxy.2 ?_
    exact hfunctional x (hsub.subset hx) y (hsub.subset hy) hname

/-! ## The files of a directory -/

/-- The peers that the files name, each with the name of its file, in the order of these names. -/
def named (files : List (Name × Option Bytes)) : List (Name × Peer) :=
  let keyFiles := files.filter fun (name, _) => Name.extension? (46 : UInt8) name == some extension
  (keyFiles.mergeSort fun a b => a.1 ≤ b.1).filterMap fun file =>
    ((file.2.bind Utf8.decode).bind parse?).map (file.1, ·)

theorem ofFiles_eq (files : List (Name × Option Bytes)) :
    ofFiles files = (firstsBy (·.2.hostname) (named files)).map (·.2) := by
  have hpeers : ofFiles files = firstsBy (·.hostname) ((named files).map (·.2)) := by
    rw [named, List.map_filterMap]
    show firstsBy _ _ = _
    rw [List.filterMap_filterMap]
    refine congrArg _ (List.filterMap_congr fun file _ => ?_)
    rw [Option.map_map]
    exact Option.map_id'.symm
  rw [hpeers, firstsBy_map]

theorem pairwise_named (files : List (Name × Option Bytes)) :
    (named files).Pairwise fun x y => x.1 ≤ y.1 := by
  refine List.Pairwise.filterMap _ ?_ (pairwise_mergeSort_key Prod.fst _)
  intro file file' hle x hx y hy
  obtain ⟨p, -, rfl⟩ := Option.map_eq_some_iff.mp hx
  obtain ⟨p', -, rfl⟩ := Option.map_eq_some_iff.mp hy
  exact hle

theorem mem_named_iff {files : List (Name × Option Bytes)} {name : Name} {p : Peer} :
    (name, p) ∈ named files ↔ Name.extension? (46 : UInt8) name = some extension
      ∧ ∃ bytes text, (name, some bytes) ∈ files ∧ Utf8.decode bytes = some text
        ∧ parse? text = some p := by
  rw [named, List.mem_filterMap]
  constructor
  · rintro ⟨⟨name', content⟩, hfile, hnames⟩
    obtain ⟨p', hparse, heq⟩ := Option.map_eq_some_iff.mp hnames
    obtain ⟨rfl, rfl⟩ := Prod.mk.inj heq
    obtain ⟨text, htext, hp⟩ := Option.bind_eq_some_iff.mp hparse
    obtain ⟨bytes, rfl, hdecode⟩ := Option.bind_eq_some_iff.mp htext
    obtain ⟨hmem, hextension⟩ := List.mem_filter.mp (List.mem_mergeSort.mp hfile)
    exact ⟨eq_of_beq hextension, bytes, text, hmem, hdecode, hp⟩
  · rintro ⟨hextension, bytes, text, hmem, hdecode, hp⟩
    refine ⟨(name, some bytes), List.mem_mergeSort.mpr (List.mem_filter.mpr
      ⟨hmem, beq_iff_eq.mpr hextension⟩), ?_⟩
    rw [Option.bind_some, hdecode, Option.bind_some, hp]
    rfl

/-- The file of this name in a directory names the peer: it is called a key file, and its content
can be read, is text and has the right form. -/
structure KeyFile (t : Tree) (directory : String) (name : Name) (p : Peer) : Prop where
  listed : ∃ children, t.readDirectory (Utf8.encode directory) = .ok children
    ∧ name ∈ children.map (·.1)
  extension : Name.extension? (46 : UInt8) name = some extension
  content : ∃ bytes text, t.contentAt (Path.below (Utf8.encode directory) name) = .ok bytes
    ∧ Utf8.decode bytes = some text ∧ parse? text = some p

variable {t : Tree} {directory : String}

/-- A file names one peer. -/
theorem KeyFile.functional {name : Name} {p p' : Peer} (h : KeyFile t directory name p)
    (h' : KeyFile t directory name p') : p = p' := by
  obtain ⟨bytes, text, hbytes, htext, hp⟩ := h.content
  obtain ⟨bytes', text', hbytes', htext', hp'⟩ := h'.content
  rw [hbytes] at hbytes'
  obtain rfl := Except.ok.inj hbytes'
  rw [htext] at htext'
  obtain rfl := Option.some.inj htext'
  rw [hp] at hp'
  exact Option.some.inj hp'

/-- The children of a directory, each with its content if that can be read. -/
def filesBelow (t : Tree) (directory : String) (children : List (Name × Node)) :
    List (Name × Option Bytes) :=
  children.map fun (name, _) =>
    (name, (t.contentAt (Path.below (Utf8.encode directory) name)).toOption)

theorem toOption_eq_some_iff {ε α : Type} {e : Except ε α} {a : α} :
    e.toOption = some a ↔ e = .ok a := by
  cases e with
  | ok b => exact ⟨fun h => congrArg _ (Option.some.inj h), fun h => congrArg _ (Except.ok.inj h)⟩
  | error cause => exact iff_of_false nofun nofun

theorem mem_named_filesBelow_iff {children : List (Name × Node)} {name : Name} {p : Peer}
    (h : t.readDirectory (Utf8.encode directory) = .ok children) :
    (name, p) ∈ named (filesBelow t directory children) ↔ KeyFile t directory name p := by
  have hcontent {bytes : Bytes} : (name, some bytes) ∈ filesBelow t directory children ↔
      name ∈ children.map (·.1)
        ∧ t.contentAt (Path.below (Utf8.encode directory) name) = .ok bytes := by
    rw [filesBelow, List.mem_map, List.mem_map]
    constructor
    · rintro ⟨child, hchild, heq⟩
      obtain ⟨rfl, hbytes⟩ := Prod.mk.inj heq
      exact ⟨⟨child, hchild, rfl⟩, toOption_eq_some_iff.mp hbytes⟩
    · rintro ⟨⟨child, hchild, rfl⟩, hbytes⟩
      exact ⟨child, hchild, Prod.ext rfl (toOption_eq_some_iff.mpr hbytes)⟩
  rw [mem_named_iff]
  constructor
  · rintro ⟨hextension, bytes, text, hfile, hdecode, hp⟩
    obtain ⟨hname, hbytes⟩ := hcontent.mp hfile
    exact ⟨⟨children, h, hname⟩, hextension, bytes, text, hbytes, hdecode, hp⟩
  · rintro ⟨⟨children', h', hname⟩, hextension, bytes, text, hbytes, hdecode, hp⟩
    rw [h] at h'
    obtain rfl := Except.ok.inj h'
    exact ⟨hextension, bytes, text, hcontent.mpr ⟨hname, hbytes⟩, hdecode, hp⟩

theorem load_of_error {cause : IoError}
    (h : t.readDirectory (Utf8.encode directory) = .error cause) :
    load t directory = .error cause := by
  rw [load, Tree.files, h]
  rfl

theorem load_of_ok {children : List (Name × Node)}
    (h : t.readDirectory (Utf8.encode directory) = .ok children) :
    load t directory = .ok (ofFiles (filesBelow t directory children)) := by
  rw [load, Tree.files, h]
  rfl

/-- **The peers of a directory are those that its key files name first.** -/
theorem firstNamed_load {children : List (Name × Node)}
    (h : t.readDirectory (Utf8.encode directory) = .ok children) :
    FirstNamed (KeyFile t directory) (ofFiles (filesBelow t directory children)) := by
  have hmem (name : Name) (p : Peer) :
      (name, p) ∈ named (filesBelow t directory children) ↔ KeyFile t directory name p :=
    mem_named_filesBelow_iff h
  have hfunctional : ∀ x ∈ named (filesBelow t directory children),
      ∀ y ∈ named (filesBelow t directory children), x.1 = y.1 → x = y := by
    rintro ⟨name, p⟩ hx ⟨name', p'⟩ hy hname
    obtain rfl : name = name' := hname
    exact congrArg _ (((hmem _ _).mp hx).functional ((hmem _ _).mp hy))
  have hfirst := firstNamed_firsts (pairwise_named _) hfunctional
  simp only [hmem] at hfirst
  rw [ofFiles_eq]
  exact hfirst

/-- What is loaded from a key directory. -/
structure Loads (t : Tree) (directory : String) : Prop where
  /-- A directory that cannot be read is an error. -/
  unreadable : ∀ cause, t.readDirectory (Utf8.encode directory) = .error cause →
    load t directory = .error cause
  /-- Any other has peers, perhaps none: those that its key files name. -/
  readable : ∀ children, t.readDirectory (Utf8.encode directory) = .ok children →
    ∃ peers, load t directory = .ok peers ∧ FirstNamed (KeyFile t directory) peers
  /-- Where the same files name the same peers the same are loaded, whatever else is there. -/
  told : ∀ t' directory' peers peers', load t directory = .ok peers →
    load t' directory' = .ok peers' →
    (∀ name p, KeyFile t directory name p ↔ KeyFile t' directory' name p) → peers = peers'

theorem firstNamed_of_load {peers : List Peer} (h : load t directory = .ok peers) :
    FirstNamed (KeyFile t directory) peers := by
  cases hchildren : t.readDirectory (Utf8.encode directory) with
  | error cause =>
      rw [load_of_error hchildren] at h
      cases h
  | ok children =>
      rw [load_of_ok hchildren] at h
      obtain rfl := Except.ok.inj h
      exact firstNamed_load hchildren

theorem loads (t : Tree) (directory : String) : Loads t directory where
  unreadable := fun cause h => load_of_error h
  readable := fun children h => ⟨_, load_of_ok h, firstNamed_load h⟩
  told := by
    intro t' directory' peers peers' h h' hsame
    have hnames : KeyFile t' directory' = KeyFile t directory :=
      funext fun name => funext fun p => propext (hsame name p).symm
    exact (firstNamed_of_load h).unique (hnames ▸ firstNamed_of_load h')

/-- A directory in which two files name one host, and others name none: one is called otherwise, one
is no text, one holds too few words and one is a directory. -/
def sampleKeys : Tree :=
  let node (content : Content) : Node := { content, permissions := 0o755 }
  let below (name : String) : Path := [Utf8.encode "keys", Utf8.encode name]
  let file (name content : String) : Path × Node :=
    (below name, node (.file (Utf8.encode content)))
  { nodes := [([], node .directory), ([Utf8.encode "keys"], node .directory),
      file "d.agkey" "alpha 2678 K2", file "c.agkey" "beta 2678 K3", file "a.agkey" "alpha 2678",
      file "b.agkey" "alpha 2679 K1", file "a.key" "beta 1 K4",
      (below "0.agkey", node (.file [255])), (below "1.agkey", node .directory)] }

example : (load sampleKeys "/keys").toOption =
    some [⟨"alpha", 2679, "K1"⟩, ⟨"beta", 2678, "K3"⟩] := by
  cbv

end UnionFS.Peer
