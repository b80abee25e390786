import UnionFS.Proofs.Union.Names

/-!
# From a listing to the listings below it

A directory is listed under its own name, and the name is taken up again in the next path.  Where a
server lists what is below a directory exactly if it has the directory, the next listing is then the
merge over the servers that have it; one that has a file of the name, or nothing, is passed over.

But the name is also read for a tag.  A directory whose name holds one leads to where the tag says
(`readdir_under_iff`), and that may be nowhere (`not_always_walked`).
-/

namespace UnionFS

open Tag

namespace Peers

variable {ps : Peers} {u : Union} {d name path server : String} {listing : List Entry}

/-- The server lists a directory of this name. -/
def listsDirectory (ps : Peers) (d name server : String) : Bool :=
  (ps.entries d server).any fun e => e.name == name && e.stat.isDirectory

/-- The connected servers that list a directory of this name. -/
def holders (ps : Peers) (u : Union) (d name : String) : List String :=
  (ps.up u).filter (ps.listsDirectory d name)

/-- Below a name a server has a listing to give exactly if it lists a directory of the name. -/
def Walks (ps : Peers) (u : Union) (d name : String) : Prop :=
  ∀ s ∈ ps.up u, (∃ entries, ps.reply s (.readdir (Path.under d name)) = .ok entries) ↔
    ps.listsDirectory d name s = true

/-- The merge of what some servers list. -/
def mergedOf (ps : Peers) (servers : List String) (path : String) : List Entry :=
  (Merge.ofListings (servers.map fun s => (s, ps.entries path s))).listing

/-- What an address leads to: without a server to the merge of all listings that are given, and else
to the server's. -/
inductive Leads (ps : Peers) (u : Union) (address : Address) (listing : List Entry) : Prop where
  | all : address.server = "" → ps.listings u address.path ≠ [] →
    listing = (Merge.ofListings (ps.listings u address.path)).listing → Leads ps u address listing
  | tagged : address.server ≠ "" → address.server ∈ u.servers →
    ps.reply address.server (.readdir address.path) = .ok listing → Leads ps u address listing

theorem leads_iff_all {address : Address} (h : address.server = "") :
    ps.Leads u address listing ↔ ps.listings u address.path ≠ []
      ∧ listing = (Merge.ofListings (ps.listings u address.path)).listing := by
  constructor
  · intro hleads
    cases hleads with
    | all _ hgiven hlisting => exact ⟨hgiven, hlisting⟩
    | tagged hne => exact absurd h hne
  · rintro ⟨hgiven, hlisting⟩
    exact .all h hgiven hlisting

theorem leads_iff_tagged {address : Address} (h : address.server ≠ "") :
    ps.Leads u address listing ↔
      address.server ∈ u.servers ∧ ps.reply address.server (.readdir address.path) = .ok listing := by
  constructor
  · intro hleads
    cases hleads with
    | all heq => exact absurd heq h
    | tagged _ hmem hreply => exact ⟨hmem, hreply⟩
  · rintro ⟨hmem, hreply⟩
    exact .tagged h hmem hreply

/-- **What is listed at a path**, in terms of what the servers answer. -/
theorem run_readdir_iff :
    ps.run (u.readdir path) = .ok listing ↔ ps.Leads u (Address.ofPath path) listing := by
  by_cases hserver : (Address.ofPath path).server = ""
  · rw [leads_iff_all hserver, run_readdir_of_untagged hserver]
    exact Union.mergedListing_eq_ok_iff
  · rw [leads_iff_tagged hserver]
    by_cases hmem : (Address.ofPath path).server ∈ u.servers
    · rw [and_iff_right hmem, Union.readdir, Union.route_of_mem hserver hmem]
      exact Iff.rfl
    · rw [Union.readdir, Union.route_of_not_mem hserver hmem]
      constructor
      · intro h
        cases h
      · intro h
        exact absurd h.1 hmem

theorem mem_listings {l : String × List Entry} :
    l ∈ ps.listings u d ↔ l.1 ∈ ps.up u ∧ ps.reply l.1 (.readdir d) = .ok l.2 := by
  rw [listings, Union.given, List.mem_filterMap]
  constructor
  · rintro ⟨a, ha, hl⟩
    obtain ⟨s, hs, rfl⟩ := List.mem_map.mp ha
    cases hreply : ps.reply s (.readdir d) with
    | error code =>
        rw [hreply] at hl
        cases hl
    | ok entries =>
        rw [hreply] at hl
        cases hl
        exact ⟨hs, hreply⟩
  · rintro ⟨hs, hreply⟩
    exact ⟨_, List.mem_map.mpr ⟨l.1, hs, rfl⟩, by rw [hreply]; rfl⟩

/-- The listings that are given below a name are those of the servers that have the directory. -/
theorem listings_under (h : ps.Walks u d name) : ps.listings u (Path.under d name) =
    (ps.holders u d name).map fun s => (s, ps.entries (Path.under d name) s) := by
  rw [listings, holders]
  rw [Walks] at h
  generalize ps.up u = servers at h
  induction servers with
  | nil => rfl
  | cons s rest ih =>
      have hs := h s List.mem_cons_self
      have hrest := ih fun x hx => h x (List.mem_cons_of_mem s hx)
      rw [Union.given] at hrest ⊢
      rw [List.map_cons, List.filterMap_cons, hrest, List.filter_cons]
      cases hreply : ps.reply s (.readdir (Path.under d name)) with
      | ok entries =>
          rw [if_pos (hs.mp ⟨entries, hreply⟩), List.map_cons, Peers.entries, hreply]
          rfl
      | error code =>
          rw [if_neg fun hlists => ?_]
          · rfl
          · obtain ⟨entries, hok⟩ := hs.mpr hlists
            rw [hreply] at hok
            cases hok

/-- A directory that is listed is on a server that lists it. -/
theorem holders_ne_nil (hl : ps.run (u.readdir d) = .ok listing) (hd : Address.ofPath d = ⟨"", d⟩)
    {e : Entry} (he : e ∈ listing) (hdir : e.stat.isDirectory = true) :
    ps.holders u d e.name ≠ [] := by
  have hleads := run_readdir_iff.mp hl
  rw [hd, leads_iff_all rfl] at hleads
  obtain ⟨-, rfl⟩ := hleads
  have hentry : e ∈ (Merge.ofListings (ps.listings u d)).directoryEntries := by
    rcases Merge.mem_listing.mp he with hentry | ⟨s, hs, rfl⟩
    · exact hentry
    · have hfile := (Merge.mem_files.mp hs).2
      rw [hdir] at hfile
      cases hfile
  have hsighting := Merge.mem_directoryEntries_iff.mp (List.mem_map_of_mem hentry)
  rw [Merge.ofListings_eq, Merge.mem_directories_recordAll] at hsighting
  obtain ⟨s, hs, hsdir, hname⟩ := hsighting
  obtain ⟨l, hgiven, -, hsl⟩ := Merge.mem_sightingsIn.mp hs
  obtain ⟨hup, hreply⟩ := mem_listings.mp hgiven
  refine List.ne_nil_of_mem (List.mem_filter.mpr ⟨hup, ?_⟩)
  rw [listsDirectory, entries, hreply]
  exact List.any_eq_true.mpr ⟨_, hsl, by simp [hname, hsdir]⟩

/-- **A listed directory leads to the merge over the servers that have it, if its name holds no
tag.**  A name with a tag has to lead to that merge where the tag says. -/
theorem readdir_under_iff (hd : Address.ofPath d = ⟨"", d⟩)
    (hl : ps.run (u.readdir d) = .ok listing) {e : Entry} (he : e ∈ listing)
    (hdir : e.stat.isDirectory = true) (hwalks : ps.Walks u d e.name) :
    ps.run (u.readdir (Path.under d e.name)) =
        .ok (ps.mergedOf (ps.holders u d e.name) (Path.under d e.name)) ↔
      (Address.ofPath e.name ≠ ⟨"", e.name⟩ →
        ps.Leads u ⟨(Address.ofPath e.name).server, Path.under d (Address.ofPath e.name).path⟩
          (ps.mergedOf (ps.holders u d e.name) (Path.under d e.name))) := by
  rw [run_readdir_iff, Address.ofPath_under]
  by_cases hname : Address.ofPath e.name = ⟨"", e.name⟩
  · have hlistings := listings_under hwalks
    have hsome := holders_ne_nil hl hd he hdir
    have hleads : ps.Leads u ⟨"", Path.under d e.name⟩
        (ps.mergedOf (ps.holders u d e.name) (Path.under d e.name)) := by
      rw [leads_iff_all rfl, hlistings]
      exact ⟨mt List.map_eq_nil_iff.mp hsome, rfl⟩
    rw [hname]
    exact ⟨fun _ hne => absurd rfl hne, fun _ => hleads⟩
  · rw [forall_prop_of_true hname]

/-! One directory, with a name that holds a tag or none. -/

/-- A directory in another one, and nothing in it. -/
def sampleNest (directory path : String) : Outcome (List Entry) :=
  if path = "/d" then .ok [⟨directory, sampleDirectory⟩]
  else if path = Path.under "/d" directory then .ok []
  else .error .notFound

def sampleNested (directory : String) : Peers where
  connected _ := true
  reply
    | _, .readdir path => sampleNest directory path
    | _, _ => .error .notFound

def sampleLone : Union where
  servers := ["alpha"]

theorem under_inj (d : String) {name name' : String} :
    Path.under d name = Path.under d name' ↔ name = name' := by
  obtain ⟨front, hfront⟩ := Path.toList_under d
  rw [← String.toList_inj, hfront, hfront, List.append_cancel_left_eq, List.cons.injEq,
    and_iff_right rfl, String.toList_inj]

theorem reply_sampleNested (directory server name : String) :
    (sampleNested directory).reply server (.readdir (Path.under "/d" name)) =
      if name = directory then .ok [] else .error .notFound := by
  have hne : Path.under "/d" name ≠ "/d" := by
    intro h
    have hlength := congrArg (fun path => path.toList.length) h
    rw [Path.under, if_neg (by decide)] at hlength
    simp at hlength
  show sampleNest directory (Path.under "/d" name) = _
  rw [sampleNest, if_neg hne]
  simp only [under_inj]

theorem listsDirectory_sampleNested (directory server name : String) :
    (sampleNested directory).listsDirectory "/d" name server = true ↔ name = directory := by
  have hentries : (sampleNested directory).entries "/d" server = [⟨directory, sampleDirectory⟩] :=
    rfl
  have hdir : sampleDirectory.isDirectory = true := by decide
  rw [listsDirectory, hentries, List.any_cons, List.any_nil, Bool.or_false, hdir, Bool.and_true,
    beq_iff_eq]
  exact eq_comm

theorem walks_sampleNested (directory : String) (u : Union) (name : String) :
    (sampleNested directory).Walks u "/d" name := by
  intro s _
  rw [reply_sampleNested, listsDirectory_sampleNested]
  by_cases hname : name = directory
  · rw [if_pos hname]
    exact ⟨fun _ => hname, fun _ => ⟨[], rfl⟩⟩
  · rw [if_neg hname]
    constructor
    · rintro ⟨entries, h⟩
      cases h
    · intro h
      exact absurd h hname

theorem run_readdir_sampleNested (directory : String) :
    (sampleNested directory).run (sampleLone.readdir "/d") =
      .ok (Merge.ofListings [("alpha", [⟨directory, sampleDirectory⟩])]).listing := by
  have haddress : Address.ofPath "/d" = ⟨"", "/d"⟩ := by decide
  rw [run_readdir_iff, haddress, leads_iff_all rfl]
  exact ⟨List.cons_ne_nil _ _, rfl⟩

theorem mem_listing_sampleNested (directory : String) :
    (⟨directory, sampleDirectory⟩ : Entry) ∈
      (Merge.ofListings [("alpha", [⟨directory, sampleDirectory⟩])]).listing := by
  have hdir : sampleDirectory.isDirectory = true := by decide
  have hdirectories : (Merge.ofListings [("alpha", [⟨directory, sampleDirectory⟩])]).directories =
      [⟨directory, "alpha", sampleDirectory⟩] := List.filter_cons_of_pos hdir
  rw [Merge.mem_listing, Merge.directoryEntries, hdirectories]
  exact .inl List.mem_cons_self

theorem readdir_under_iff_sample :
    (sampleNested "x").run (sampleLone.readdir (Path.under "/d" "x")) =
      .ok ((sampleNested "x").mergedOf ["alpha"] (Path.under "/d" "x")) :=
  (readdir_under_iff (e := ⟨"x", sampleDirectory⟩) (by decide) (run_readdir_sampleNested "x")
    (mem_listing_sampleNested "x") (by decide) (walks_sampleNested "x" sampleLone "x")).mpr
      fun htag => absurd (by decide) htag

/-- **Not every listed directory can be listed itself**: its name reads as one with a tag, and no
server is called so. -/
theorem not_always_walked :
    ¬ ∀ (ps : Peers) (u : Union) (d : String), (∀ s ∈ u.servers, ps.connected s = true) →
      (∀ name, ps.Walks u d name) → Address.ofPath d = ⟨"", d⟩ →
      ∀ listing, ps.run (u.readdir d) = .ok listing → ∀ e ∈ listing,
        e.stat.isDirectory = true → ps.run (u.readdir (Path.under d e.name)) =
          .ok (ps.mergedOf (ps.holders u d e.name) (Path.under d e.name)) := by
  intro hall
  have hwalked := hall (sampleNested "x\x7b:y:\x7d") sampleLone "/d" (fun _ _ => rfl)
    (walks_sampleNested _ _) (by decide) _ (run_readdir_sampleNested _) _
    (mem_listing_sampleNested _) (by decide)
  have haddress : Address.ofPath (Path.under "/d" "x\x7b:y:\x7d") = ⟨"y", "/d/x"⟩ := by decide
  have hleads := run_readdir_iff.mp hwalked
  rw [haddress, leads_iff_tagged (by decide)] at hleads
  exact absurd hleads.1 (by decide)

end Peers

end UnionFS
