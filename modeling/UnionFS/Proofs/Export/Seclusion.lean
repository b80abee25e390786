import Mathlib.Data.List.Nodup
import UnionFS.Proofs.Export.Confinement
import UnionFS.Proofs.Tree.Variants
import UnionFS.Proofs.Wire.Agreement

/-!
# Seclusion

What a session's replies tell of the tree outside the export's root.  Whatever is read is read at or
below the root, but to tell whether a path ends there it has to be followed, and a link may lead the
way out.  So take two trees that are the same at the root and below it (`SameBelow`) and outside as
different as can be.

* `perform_congr`: a request whose path is followed within the root (`LeadsOut` says what is not)
  gets the same reply on both, and leaves trees that are again the same below the root;
* `reveals_of_follows`: for any other request it is an object outside that decides: where it is
  missing the path is not found, and where it is a file the reply is another;
* `replies_eq_iff`: so replies depend on the exported subtree alone exactly for the sequences of
  requests none of which strays.
-/

namespace UnionFS

open UnionFS.Path Wire

/-! ## Listings -/

namespace Export

variable {e : Export} {t t' : Tree} {path : String} {q : Path} {r : Request} {rs : List Request}

theorem mem_within {name : Name} {n : Node} (ht : t.WellFormed) :
    (name, n) ∈ within t q ↔ t.lookup (q ++ [name]) = some n ∧ fits (q ++ [name]) = true := by
  rw [within, List.mem_filter, Tree.mem_children ht]

theorem nodup_children (ht : t.WellFormed) : (t.children q).Nodup := by
  refine List.Nodup.filterMap ?_ (List.Nodup.of_map _ ht.distinct)
  intro x x' child hx hx'
  exact (Tree.eq_of_child hx).trans (Tree.eq_of_child hx').symm

theorem nodup_within (ht : t.WellFormed) : (within t q).Nodup :=
  (nodup_children ht).filter _

/-- Of the children of a directory no two are listed by the same name. -/
theorem eq_of_name_eq (ht : t.WellFormed) {a b : Entry}
    (ha : a ∈ (within t q).filterMap fun child => entry? child.1 child.2)
    (hb : b ∈ (within t q).filterMap fun child => entry? child.1 child.2)
    (hname : a.name = b.name) : a = b := by
  obtain ⟨⟨x, n⟩, hx, hax⟩ := List.mem_filterMap.mp ha
  obtain ⟨⟨y, m⟩, hy, hby⟩ := List.mem_filterMap.mp hb
  obtain ⟨text, htext, rfl⟩ := Option.map_eq_some_iff.mp hax
  obtain ⟨text', htext', rfl⟩ := Option.map_eq_some_iff.mp hby
  have hx' : x = Utf8.encode text := Utf8.eq_encode_of_decode htext
  have hy' : y = Utf8.encode text' := Utf8.eq_encode_of_decode htext'
  have hxy : x = y := by
    rw [hx', hy', show text = text' from hname]
  have hn := ((mem_within ht).mp hx).1
  rw [hxy, ((mem_within ht).mp hy).1] at hn
  rw [Option.some.inj hn, show text = text' from hname]

/-- The children of a directory are listed in the order of their names. -/
theorem pairwise_listing (children : List (Name × Node)) :
    (listing children).Pairwise fun a b => a.name ≤ b.name := by
  have trans : ∀ a b c : Entry, decide (a.name ≤ b.name) = true → decide (b.name ≤ c.name) = true →
      decide (a.name ≤ c.name) = true := by
    simpa using fun a b c : Entry => fun h h' => String.le_trans h h'
  have total : ∀ a b : Entry, (decide (a.name ≤ b.name) || decide (b.name ≤ a.name)) = true := by
    simpa using fun a b : Entry => String.le_total a.name b.name
  simpa [listing] using List.pairwise_mergeSort trans total
    (children.filterMap fun child => entry? child.1 child.2)

/-- **A directory's listing is that of its children, in whatever order they stand.** -/
theorem listing_congr (ht : t.WellFormed) (ht' : t'.WellFormed)
    (h : ∀ name, t.lookup (q ++ [name]) = t'.lookup (q ++ [name])) :
    listing (within t q) = listing (within t' q) := by
  have hperm : (within t q).Perm (within t' q) := by
    rw [List.perm_ext_iff_of_nodup (nodup_within ht) (nodup_within ht')]
    rintro ⟨name, n⟩
    rw [mem_within ht, mem_within ht', h name]
  refine List.Perm.eq_of_pairwise ?_ (pairwise_listing _) (pairwise_listing _) ?_
  · intro a b ha hb hab hba
    have hb' := (hperm.filterMap fun child => entry? child.1 child.2).mem_iff.mpr
      (List.mem_mergeSort.mp hb)
    exact eq_of_name_eq ht (List.mem_mergeSort.mp ha) hb' (String.le_antisymm hab hba)
  · exact (List.mergeSort_perm _ _).trans
      ((hperm.filterMap _).trans (List.mergeSort_perm _ _).symm)

/-! ## Trees that are the same below the root -/

/-- The export's root is the directory that its own path leads to. -/
structure Mounted (e : Export) (t : Tree) : Prop where
  wellFormed : t.WellFormed
  canonical : t.realpath e.root [] = .ok e.root

/-- The trees have the same objects at the root and below it, and belong to the same process. -/
structure SameBelow (e : Export) (t t' : Tree) : Prop where
  privileged : t.privileged = t'.privileged
  lookup : ∀ p, e.root <+: p → t.lookup p = t'.lookup p

theorem Mounted.opened (ht : e.Mounted t) : t.Open e.root :=
  Tree.open_of_realpath ht.wellFormed ht.canonical

theorem Mounted.sameFrom (ht : e.Mounted t) (ht' : e.Mounted t') (h : e.SameBelow t t') :
    t.SameFrom e.root t' :=
  ⟨ht.wellFormed, ht'.wellFormed, ht.opened, ht'.opened, h.privileged, h.lookup⟩

theorem mounted_of_sameFrom (h : t.SameFrom e.root t') : e.Mounted t' :=
  ⟨h.wellFormed', h.opened'.realpath h.wellFormed'⟩

theorem sameBelow_of_sameFrom (h : t.SameFrom e.root t') : e.SameBelow t t' :=
  ⟨h.privileged, h.lookup⟩

/-- A request keeps the root where it is. -/
theorem Mounted.perform (ht : e.Mounted t) (r : Request) : e.Mounted (e.perform t r).2 := by
  refine ⟨?_, ?_⟩
  · cases r with
    | write path data offset =>
        rw [Export.perform, write]
        split
        · exact ht.wellFormed
        · rw [writeAt]
          split
          · exact ht.wellFormed
          · exact ht.wellFormed.modify _ fun n => n.isDirectory_overlay _ _
    | _ => exact ht.wellFormed
  · rw [Tree.realpath, ← Tree.resolve_congr (e.sameOutline_perform t r)]
    exact ht.canonical

/-- A request changes nothing outside the root. -/
theorem lookup_perform (t : Tree) (r : Request) (hq : ¬ e.root <+: q) :
    (e.perform t r).2.lookup q = t.lookup q := by
  cases r with
  | write path data offset =>
      rw [perform, write]
      split
      · rfl
      · next q' hopen =>
        have hkept : e.Untouched t t := fun _ _ => rfl
        exact hkept.writeAt (prefix_of_openForWrite hopen) offset data q hq
  | _ => rfl

/-! ## Paths that lead out -/

/-- In following the path something is looked up that is neither at the root nor above or below it.
A path that leads upwards, or that no object can have, is refused before it is followed. -/
structure LeadsOut (e : Export) (t : Tree) (path : String) : Prop where
  down : Name.dotDot ∉ Path.names path
  no_zero : ∀ name ∈ namesBelow path, 0 ∉ name
  out : ∃ p, ¬ Near e.root p
    ∧ t.LooksUp Tree.linkLimit [] (e.root ++ Name.dot :: namesBelow path) p

theorem realpath_of_no_zero {names : List Name} (h : ∀ name ∈ names, 0 ∉ name) :
    t.realpath e.root names = t.resolve Tree.linkLimit [] (e.root ++ Name.dot :: names) := by
  rw [Tree.realpath, if_neg]
  intro hany
  obtain ⟨name, hmem, hzero⟩ := List.any_eq_true.mp hany
  exact h name hmem (List.contains_iff_mem.mp hzero)

/-- **A path that does not lead out is confined in the same way.** -/
theorem confine_eq_of_not_leadsOut (h : t.SameFrom e.root t') (hin : ¬ e.LeadsOut t path) :
    e.confine t path = e.confine t' path := by
  by_cases hup : Name.dotDot ∈ Path.names path
  · rw [confine_of_upwards hup, confine_of_upwards hup]
  · rw [confine_of_safe hup, confine_of_safe hup]
    by_cases hzero : ∀ name ∈ namesBelow path, 0 ∉ name
    · rw [realpath_of_no_zero hzero, realpath_of_no_zero hzero, h.resolve near_nil]
      intro p hp
      by_contra hfar
      exact hin ⟨hup, hzero, p, hfar, hp⟩
    · have hany : ((namesBelow path).any fun name => name.contains 0) = true := by
        simpa using hzero
      rw [Tree.realpath, Tree.realpath, if_pos hany, if_pos hany]

theorem sameAt_of_not_leadsOut (h : t.SameFrom e.root t') (hin : ¬ e.LeadsOut t path) :
    e.SameAt t t' path := by
  refine ⟨h.privileged, ?_⟩
  rw [resolve, resolve, confine_eq_of_not_leadsOut h hin]
  cases hq : e.confine t' path with
  | error c => rfl
  | ok q =>
      dsimp only [bind, Except.bind]
      rw [h.lookup q (isPrefix_of_confine hq)]

/-- The request is for no more data than the export takes; else it is refused before its path is
followed. -/
def Affords (e : Export) : Request → Prop
  | .read _ size _ => size ≤ e.maxIo
  | .write _ data _ => UInt64.ofNat data.length ≤ e.maxIo
  | _ => True

/-- The request's path is followed, and leads out. -/
def Follows (e : Export) (t : Tree) (r : Request) : Prop := e.Affords r ∧ e.LeadsOut t r.path

theorem read_of_lt {size offset : UInt64} (h : e.maxIo < size) :
    e.read t path size offset = .error .invalidArgument := by
  rw [read, if_pos h]
  rfl

theorem openForWrite_of_lt {size : UInt64} (h : e.maxIo < size) :
    e.openForWrite t path size = .error .tooLarge := by
  rw [openForWrite, if_pos h]
  rfl

/-! ## One request -/

theorem SameBelow.writeAt (h : e.SameBelow t t') (q : Path) (offset : UInt64) (data : Bytes) :
    (Export.writeAt q offset data t).1 = (Export.writeAt q offset data t').1
      ∧ e.SameBelow (Export.writeAt q offset data t).2 (Export.writeAt q offset data t').2 := by
  unfold Export.writeAt
  split
  · exact ⟨rfl, h⟩
  · refine ⟨rfl, h.privileged, fun p hp => ?_⟩
    rw [Tree.lookup_modify, Tree.lookup_modify, h.lookup p hp]

/-- **A request whose path does not lead out shows nothing of the outside**, and no more does what it
leaves. -/
theorem perform_congr (h : t.SameFrom e.root t') (hin : ¬ e.Follows t r) :
    e.response t r = e.response t' r ∧ e.SameBelow (e.perform t r).2 (e.perform t' r).2 := by
  have hsame := sameBelow_of_sameFrom h
  have at_of (hafford : e.Affords r) : e.SameAt t t' r.path :=
    sameAt_of_not_leadsOut h fun hout => hin ⟨hafford, hout⟩
  cases r with
  | getattr path =>
      exact ⟨congrArg replyStat (at_of trivial).getattr, hsame⟩
  | access path mask =>
      exact ⟨congrArg replyUnit ((at_of trivial).access mask), hsame⟩
  | readdir path =>
      refine ⟨congrArg replyEntries ((at_of trivial).readdir fun q hq => ?_), hsame⟩
      exact listing_congr h.wellFormed h.wellFormed' fun name =>
        h.lookup _ (hq.trans (List.prefix_append q [name]))
  | read path size offset =>
      refine ⟨congrArg replyData ?_, hsame⟩
      by_cases hsize : size ≤ e.maxIo
      · exact (at_of hsize).read size offset
      · rw [read_of_lt (UInt64.not_le.mp hsize), read_of_lt (UInt64.not_le.mp hsize)]
  | openFile path flags =>
      exact ⟨congrArg replyUnit ((at_of trivial).openFile flags), hsame⟩
  | write path data offset =>
      have hopen : e.openForWrite t path (UInt64.ofNat data.length) =
          e.openForWrite t' path (UInt64.ofNat data.length) := by
        by_cases hsize : UInt64.ofNat data.length ≤ e.maxIo
        · exact (at_of hsize).openForWrite _
        · rw [openForWrite_of_lt (UInt64.not_le.mp hsize),
            openForWrite_of_lt (UInt64.not_le.mp hsize)]
      rw [response, response, perform, perform, write, write, hopen]
      split
      · next q hq =>
        rw [hq]
        exact ⟨by rw [(hsame.writeAt q offset data).1], (hsame.writeAt q offset data).2⟩
      · next c hc =>
        rw [hc]
        exact ⟨rfl, hsame⟩

theorem response_of_confine {c : Code} (hafford : e.Affords r)
    (h : e.confine t r.path = .error c) : e.response t r = ofCode c := by
  have hresolve : ∀ path, path = r.path → e.resolve t path = .error c := by
    rintro path rfl
    rw [resolve, h]
    rfl
  cases r with
  | getattr path =>
      rw [response, getattr, hresolve path rfl]
      rfl
  | access path mask =>
      rw [response, access, hresolve path rfl]
      rfl
  | readdir path =>
      rw [response, readdir, hresolve path rfl]
      rfl
  | read path size offset =>
      rw [response, read, if_neg (UInt64.not_lt.mpr hafford), hresolve path rfl]
      rfl
  | openFile path flags =>
      rw [response, openFile, hresolve path rfl]
      rfl
  | write path data offset =>
      have hopen : e.openForWrite t path (UInt64.ofNat data.length) = .error c := by
        rw [openForWrite, if_neg (UInt64.not_lt.mpr hafford), hresolve path rfl]
        rfl
      rw [response, hopen]

/-- In trees that are the same from the root on, the reply tells whether there is nothing in the
place or a file. -/
structure Reveals (e : Export) (t : Tree) (p : Path) (reply : Tree → Option Bytes) : Prop where
  missing : ∀ t', t.SameFrom e.root t' → t'.lookup p = none → reply t' = some (ofCode .notFound)
  file : ∀ t' n data, t.SameFrom e.root t' → t'.lookup p = some n → n.content = .file data →
    reply t' = some (ofCode .accessDenied) ∨ reply t' = some (ofCode .notDirectory)

/-- **A request whose path leads out reveals what there is in some place outside.** -/
theorem reveals_of_follows (ht : e.Mounted t) (h : e.Follows t r) :
    ∃ p, Tree.Beside e.root p ∧ e.Reveals t p fun t' => some (e.response t' r) := by
  obtain ⟨hafford, hdown, hzero, q, hfar, hlooks⟩ := h
  obtain ⟨p, hp, hsame⟩ := hlooks.astray ht.wellFormed near_nil hfar
  have hconfine (t' : Tree) : e.confine t' r.path =
      t'.resolve Tree.linkLimit [] (e.root ++ Name.dot :: namesBelow r.path) >>= fun q =>
        if e.root.isPrefixOf q then .ok q else .error .accessDenied := by
    rw [confine_of_safe hdown, realpath_of_no_zero hzero]
  refine ⟨p, hp, ⟨fun t' h' hnone => ?_, fun t' n data h' hfound hfile => ?_⟩⟩
  · refine congrArg some (response_of_confine hafford ?_)
    rw [hconfine, (hsame t' h').missing hnone]
    rfl
  · rcases (hsame t' h').file n data hfound hfile with hok | herror
    · refine .inl (congrArg some (response_of_confine hafford ?_))
      rw [hconfine, hok]
      exact if_neg fun hpre => hp.far (.inr (List.isPrefixOf_iff_prefix.mp hpre))
    · refine .inr (congrArg some (response_of_confine hafford ?_))
      rw [hconfine, herror]
      rfl

/-- What reveals something differs on trees that are the same below the root. -/
theorem Reveals.differs {p : Path} {reply : Tree → Option Bytes} (h : e.Reveals t p reply)
    (ht : e.Mounted t) (hp : Tree.Beside e.root p) :
    ∃ t₁ t₂, t.SameFrom e.root t₁ ∧ t.SameFrom e.root t₂ ∧ reply t₁ ≠ reply t₂ := by
  have h₁ := ht.opened.sameFrom_without ht.wellFormed hp.far
  have hnone : (t.without p).lookup p = none := by
    rw [Tree.lookup_without, if_pos List.prefix_rfl]
  -- a file is put where nothing is left
  have h₂ := h₁.opened'.sameFrom_put h₁.wellFormed' hp hnone { content := .file [], permissions := 0 }
  have hfile := h.file _ _ [] (h₁.trans h₂) (by rw [Tree.lookup_put, if_pos rfl]) rfl
  refine ⟨_, _, h₁, h₁.trans h₂, ?_⟩
  rw [h.missing _ h₁ hnone]
  have hne {c c' : Code} (hc : c ≠ c') : some (ofCode c) ≠ some (ofCode c') := by
    intro heq
    have hcode : ofCode c ++ [] = ofCode c' ++ [] := congrArg (· ++ []) (Option.some.inj heq)
    exact hc (ofCode_append_inj hcode).1
  rcases hfile with hfile | hfile
  · rw [hfile]
    exact hne (by decide)
  · rw [hfile]
    exact hne (by decide)

/-! ## Requests one after another -/

/-- What the client hears for each of the requests. -/
def replies (e : Export) (t : Tree) (rs : List Request) : List Bytes :=
  (e.performEach t rs).map (·.heard)

theorem replies_cons : e.replies t (r :: rs) =
    e.response t r :: e.replies (e.perform t r).2 rs := rfl

/-- One of the requests follows a path that leads out, in the tree as the earlier ones left it. -/
def Strays (e : Export) (t : Tree) : List Request → Prop
  | [] => False
  | r :: rs => e.Follows t r ∨ e.Strays (e.perform t r).2 rs

/-- A request leaves trees that are the same from the root on. -/
theorem sameFrom_perform (h : t.SameFrom e.root t') (hin : ¬ e.Follows t r) :
    (e.perform t r).2.SameFrom e.root (e.perform t' r).2 := by
  have ht := mounted_of_sameFrom h.symm
  have ht' := mounted_of_sameFrom h
  exact (ht.perform r).sameFrom (ht'.perform r) (perform_congr h hin).2

/-- Requests that do not stray show nothing of the outside. -/
theorem replies_congr (h : t.SameFrom e.root t') (hin : ¬ e.Strays t rs) :
    e.replies t rs = e.replies t' rs := by
  induction rs generalizing t t' with
  | nil => rfl
  | cons r rs ih =>
      obtain ⟨hhere, hrest⟩ := not_or.mp hin
      rw [replies_cons, replies_cons, (perform_congr h hhere).1,
        ih (sameFrom_perform h hhere) hrest]

/-- The first of the requests that strays reveals something. -/
theorem reveals_of_strays (ht : e.Mounted t) (h : e.Strays t rs) :
    ∃ (k : Nat) (p : Path), Tree.Beside e.root p
      ∧ e.Reveals t p fun t' => (e.replies t' rs)[k]? := by
  induction rs generalizing t with
  | nil => cases h
  | cons r rs ih =>
      by_cases hhere : e.Follows t r
      · obtain ⟨p, hp, hreveals⟩ := reveals_of_follows ht hhere
        exact ⟨0, p, hp, hreveals⟩
      · obtain ⟨k, p, hp, hreveals⟩ := ih (ht.perform r) (h.resolve_left hhere)
        -- what is there does not change, as it is outside
        have hkept (t' : Tree) : (e.perform t' r).2.lookup p = t'.lookup p :=
          lookup_perform t' r fun hpre => hp.far (.inr hpre)
        refine ⟨k + 1, p, hp, ⟨fun t' h' hnone => ?_, fun t' n data h' hfound => ?_⟩⟩
        · exact hreveals.missing _ (sameFrom_perform h' hhere) (hkept t' ▸ hnone)
        · exact hreveals.file _ n data (sameFrom_perform h' hhere) (hkept t' ▸ hfound)

/-- Without links at the root or below it no path leads out. -/
theorem not_leadsOut_of_linkless (ht : e.Mounted t) (hno : t.Linkless e.root) :
    ¬ e.LeadsOut t path := by
  rintro ⟨hdown, -, p, hfar, hlooks⟩
  refine hfar (hlooks.near_of_open ht.wellFormed ht.opened (List.nil_append _) fun hbelow => ?_)
  refine .inr (hbelow.prefix_of_linkless hno List.prefix_rfl ?_)
  intro hmem
  rcases List.mem_cons.mp hmem with h | h
  · exact absurd h (by decide)
  · exact hdown (List.mem_filter.mp h).1

theorem not_strays_of_linkless (ht : e.Mounted t) (hno : t.Linkless e.root) :
    ¬ e.Strays t rs := by
  induction rs generalizing t with
  | nil => exact id
  | cons r rs ih =>
      have hkept := e.sameOutline_perform t r
      rintro (h | h)
      · exact not_leadsOut_of_linkless ht hno h.2
      · refine ih (ht.perform r) (fun p n target hp hn hlink => ?_) h
        -- requests make no links
        obtain ⟨m, hm, hnm⟩ := hkept.symm.lookup hn
        have hlike := Node.like_of_outline hnm
        rw [Node.Like, hlink] at hlike
        exact hno p m target hp hm hlike

/-- **Replies depend on the exported subtree alone exactly if no request strays**: as long as no path
is followed out of the root, requests get the same replies on all trees that are the same below it,
and the replies to any other requests differ on some two of those trees. -/
theorem replies_eq_iff (ht : e.Mounted t) (rs : List Request) :
    (∀ t', e.Mounted t' → e.SameBelow t t' → e.replies t rs = e.replies t' rs) ↔
      ¬ e.Strays t rs := by
  constructor
  · intro hsame hstrays
    obtain ⟨k, p, hp, hreveals⟩ := reveals_of_strays ht hstrays
    obtain ⟨t₁, t₂, h₁, h₂, hne⟩ := hreveals.differs ht hp
    have same {t' : Tree} (h' : t.SameFrom e.root t') : e.replies t rs = e.replies t' rs :=
      hsame t' (mounted_of_sameFrom h') (sameBelow_of_sameFrom h')
    exact hne (by rw [← same h₁, ← same h₂])
  · intro hin t' ht' h
    exact replies_congr (ht.sameFrom ht' h) hin

/-! ## A link that leads out -/

def sampleRoot : Tree := { nodes := [([], { content := .directory, permissions := 0o755 })] }

/-- A directory to export. -/
def sampleBare : Tree := sampleRoot.put [[100]] { content := .directory, permissions := 0o755 }

/-- With a link in it to what is not there. -/
def sampleDangling : Tree :=
  sampleBare.put [[100], [108]] { content := .link [47, 120], permissions := 0o777 }

/-- The same, and what the link leads to. -/
def sampleLinked : Tree := sampleDangling.put [[120]] { content := .file [1], permissions := 0o600 }

theorem isPlain_of_singleton {b : UInt8} (hslash : b ≠ Name.slash) (hdot : b ≠ 46) (hzero : b ≠ 0) :
    Name.IsPlain [b] where
  ne_nil := by simp
  ne_dot := by simpa [Name.dot] using hdot
  ne_dotDot := by simp [Name.dotDot]
  no_slash := by simpa using hslash.symm
  no_zero := by simpa using hzero.symm
  short := by simp [Name.limit]

theorem wellFormed_sampleRoot : sampleRoot.WellFormed := by
  have hnone (q : Path) (name : Name) : ¬ (sampleRoot.lookup (q ++ [name])).isSome := by
    have hne : ((q ++ [name] : Path) == []) = false := by simp
    simp [sampleRoot, Tree.lookup, List.lookup_cons, hne]
  refine ⟨by decide, by decide, fun q name h => absurd h (hnone q name), fun q name h => ?_⟩
  exact absurd h (hnone q name)

/-- The root's path is that of the directory. -/
theorem open_sample (habove : t.isDirectory [] = true ∧ t.searchable [] = true)
    (hroot : t.isDirectory [[100]] = true ∧ t.searchable [[100]] = true) : t.Open sample.root := by
  intro p hp
  rcases List.prefix_cons_iff.mp hp with rfl | ⟨rest, rfl, hrest⟩
  · exact habove
  · rw [List.prefix_nil.mp hrest]
    exact hroot

theorem mounted_sampleBare : sample.Mounted sampleBare := by
  have hplain : Name.IsPlain [100] := isPlain_of_singleton (by decide) (by decide) (by decide)
  have hdir : sampleRoot.isDirectory [] = true := by decide
  have hwell : sampleBare.WellFormed := wellFormed_sampleRoot.put hdir hplain (by decide) _
  exact ⟨hwell, (open_sample (by decide) (by decide)).realpath hwell⟩

theorem mounted_sampleDangling : sample.Mounted sampleDangling := by
  have hplain : Name.IsPlain [108] := isPlain_of_singleton (by decide) (by decide) (by decide)
  have hdir : sampleBare.isDirectory [[100]] = true := by decide
  have hwell : sampleDangling.WellFormed :=
    mounted_sampleBare.wellFormed.put hdir hplain (by decide) _
  exact ⟨hwell, (open_sample (by decide) (by decide)).realpath hwell⟩

theorem sameFrom_sample : sampleDangling.SameFrom sample.root sampleLinked := by
  have hplain : Name.IsPlain [120] := isPlain_of_singleton (by decide) (by decide) (by decide)
  refine mounted_sampleDangling.opened.sameFrom_put mounted_sampleDangling.wellFormed
    ⟨?_, [], [120], rfl, List.nil_prefix, hplain⟩ (by decide) _
  unfold Near
  decide

/-- The link is found in the directory. -/
structure Sampled (t : Tree) : Prop where
  root : t.Enters [] [100] { content := .directory, permissions := 0o755 }
  searched : t.searchable [[100]] = true
  link : t.Enters [[100]] [108] { content := .link [47, 120], permissions := 0o777 }

theorem sampled_sampleDangling : Sampled sampleDangling where
  root := ⟨⟨by decide, by decide, by decide⟩, by decide, by decide, by decide⟩
  searched := by decide
  link := ⟨⟨by decide, by decide, by decide⟩, by decide, by decide, by decide⟩

theorem sampled_sampleLinked : Sampled sampleLinked where
  root := ⟨⟨by decide, by decide, by decide⟩, by decide, by decide, by decide⟩
  searched := by decide
  link := ⟨⟨by decide, by decide, by decide⟩, by decide, by decide, by decide⟩

/-- The link is followed from the top of the tree. -/
theorem Sampled.confine (h : Sampled t) :
    sample.confine t "/l" = t.resolve 39 [] [[120]] >>= fun q =>
      if sample.root.isPrefixOf q then .ok q else .error .accessDenied := by
  rw [confine_of_safe (by decide), realpath_of_no_zero (by decide)]
  show t.resolve 40 [] [[100], Name.dot, [108]] >>= _ = _
  rw [Tree.resolve_of_enters h.root]
  show t.resolve 40 [[100]] [Name.dot, [108]] >>= _ = _
  rw [Tree.resolve_dot h.searched, Tree.resolve_of_enters h.link]
  show t.resolve 39 [] [[], [120]] >>= _ = _
  rw [Tree.resolve_idle]

theorem strays_sample : sample.Strays sampleDangling [.getattr "/l"] := by
  have hplain : Name.IsPlain [120] := isPlain_of_singleton (by decide) (by decide) (by decide)
  refine .inl ⟨trivial, by decide, by decide, [[120]], by unfold Near; decide, ?_⟩
  refine .directory sampled_sampleDangling.root rfl (.stay sampled_sampleDangling.searched ?_)
  exact .link sampled_sampleDangling.link rfl (.idle (.name hplain (by decide)))

theorem linkless_sampleBare : sampleBare.Linkless sample.root := by
  intro p n target hp hn hlink
  rw [Tree.lookup_eq_some_iff mounted_sampleBare.wellFormed] at hn
  have hnodes : sampleBare.nodes = [([], { content := .directory, permissions := 0o755 }),
      ([[100]], { content := .directory, permissions := 0o755 })] := by decide
  rw [hnodes] at hn
  rcases List.mem_cons.mp hn with h | h
  · cases h
    cases hlink
  · cases List.mem_singleton.mp h
    cases hlink

theorem replies_eq_iff_sample :
    sample.Mounted sampleBare ∧ sample.Mounted sampleDangling
      ∧ (∀ t', sample.Mounted t' → sample.SameBelow sampleBare t' →
          sample.replies sampleBare [.getattr "/l"] = sample.replies t' [.getattr "/l"])
      ∧ ¬ ∀ t', sample.Mounted t' → sample.SameBelow sampleDangling t' →
          sample.replies sampleDangling [.getattr "/l"] = sample.replies t' [.getattr "/l"] :=
  ⟨mounted_sampleBare, mounted_sampleDangling,
    (replies_eq_iff mounted_sampleBare [.getattr "/l"]).mpr
      (not_strays_of_linkless mounted_sampleBare linkless_sampleBare),
    fun h => (replies_eq_iff mounted_sampleDangling [.getattr "/l"]).mp h strays_sample⟩

/-- **A link that leads out tells whether there is something where it leads.** -/
theorem not_always_secluded :
    ¬ ∀ (e : Export) (t t' : Tree), e.Mounted t → e.Mounted t' → e.SameBelow t t' →
      ∀ rs, e.replies t rs = e.replies t' rs := by
  intro h
  have hsame := h sample sampleDangling sampleLinked mounted_sampleDangling
    (mounted_of_sameFrom sameFrom_sample) (sameBelow_of_sameFrom sameFrom_sample) [.getattr "/l"]
  have hmissing : sample.response sampleDangling (.getattr "/l") = ofCode .notFound := by
    refine response_of_confine trivial (sampled_sampleDangling.confine.trans ?_)
    rw [Tree.resolve]
    rfl
  have hrefused : sample.response sampleLinked (.getattr "/l") = ofCode .accessDenied := by
    refine response_of_confine trivial (sampled_sampleLinked.confine.trans ?_)
    rw [Tree.resolve]
    rfl
  rw [replies_cons, replies_cons, hmissing, hrefused] at hsame
  exact absurd (List.cons.inj hsame).1 (by decide)

end Export
end UnionFS
