import UnionFS.Proofs.Union.Merging

/-!
# Names in a merged listing

The names in a merged listing ascend, and two entries have the same name only if one is a directory
by the very name that a file gets with its tag: files are kept apart from each other and directories
from each other, and a file without a tag has no directory's name (`ascending_listing_iff`).
Directories keep any name, so that this can happen (`not_always_ascending`).

What is listed at a path without a tag is the merge of the listings that the connected servers give,
where those that give none are passed over (`run_readdir_of_untagged`, `mergedListing_eq_ok_iff`).
-/

namespace UnionFS

open Tag

namespace Merge

variable {m : Merge} {s t : Sighting}

/-- Names in order ascend if there is no name twice. -/
theorem pairwise_lt_iff_nodup {names : List String} (h : names.Pairwise (· ≤ ·)) :
    names.Pairwise (· < ·) ↔ names.Nodup := by
  constructor
  · intro hlt
    exact hlt.imp fun hab => String.ne_of_lt hab
  · intro hnodup
    exact (h.and hnodup).imp fun hab => Std.lt_of_le_of_ne hab.1 hab.2

/-- A directory has the name that a file is listed by, with its tag. -/
def Clashes (m : Merge) : Prop :=
  ∃ s ∈ m.files, ¬ m.Alone s ∧ ∃ t ∈ m.directories, t.name = attach s.name s.server

theorem Distinct.clashes_iff (h : m.Distinct) :
    m.Clashes ↔ ∃ s ∈ m.files, ∃ t ∈ m.directories, t.name = m.listedName s := by
  refine exists_congr fun s => and_congr_right fun hs => ?_
  by_cases halone : m.Alone s
  · rw [h.listedName_of_alone hs halone]
    constructor
    · rintro ⟨hnot, -⟩
      exact absurd halone hnot
    · rintro ⟨t, ht, hname⟩
      exact absurd hname (halone.no_directory t ht)
  · rw [h.listedName_of_not_alone hs halone]
    exact and_iff_right halone

/-- **The names of a merged listing ascend, unless a directory has the tagged name of a file.** -/
theorem Distinct.ascending_iff (h : m.Distinct) (hfits : ∀ s ∈ m.sightings, Fits s.server) :
    (m.listing.map (·.name)).Pairwise (· < ·) ↔ ¬ m.Clashes := by
  have hfiles : (m.fileEntries.map (·.name)).Perm (m.files.map m.listedName) := by
    rw [fileEntries, List.map_map]
    exact (List.mergeSort_perm _ _).map _
  have hnames : (m.listing.map (·.name)).Nodup ↔
      (m.directoryEntries.map (·.name) ++ m.files.map m.listedName).Nodup := by
    refine (((m.perm_listing.map _).trans ?_)).nodup_iff
    rw [List.map_append]
    exact hfiles.append_left _
  rw [pairwise_lt_iff_nodup (List.pairwise_map.mpr m.listing_pairwise), hnames, List.nodup_append,
    and_iff_right m.nodup_directoryEntries, and_iff_right (h.nodup_listedNames hfits),
    h.clashes_iff]
  constructor
  · rintro hdisjoint ⟨s, hs, t, ht, hname⟩
    exact hdisjoint _ (mem_directoryEntries_iff.mpr ⟨t, ht, rfl⟩) _
      (List.mem_map_of_mem hs) hname
  · rintro hno name hdirectory name' hfile rfl
    obtain ⟨t, ht, rfl⟩ := mem_directoryEntries_iff.mp hdirectory
    obtain ⟨s, hs, hname⟩ := List.mem_map.mp hfile
    exact hno ⟨s, hs, t, ht, hname.symm⟩

/-! ## Listings of several servers -/

/-- What the servers list, server by server. -/
def sightingsIn (listings : List (String × List Entry)) : List Sighting :=
  listings.flatMap fun l => sightingsOf l.1 l.2

/-- The listings of some servers, merged. -/
def ofListings (listings : List (String × List Entry)) : Merge :=
  Union.mergeListings (listings.map fun l => (l.1, .ok l.2)) {}

theorem mem_sightingsIn {listings : List (String × List Entry)} :
    s ∈ sightingsIn listings ↔ ∃ l ∈ listings, s.server = l.1 ∧ ⟨s.name, s.stat⟩ ∈ l.2 := by
  rw [sightingsIn, List.mem_flatMap]
  refine exists_congr fun l => and_congr_right fun _ => ?_
  rw [sightingsOf, List.mem_map]
  constructor
  · rintro ⟨e, he, rfl⟩
    exact ⟨rfl, he⟩
  · rintro ⟨hserver, he⟩
    exact ⟨_, he, hserver ▸ rfl⟩

theorem addEntries_fst (m : Merge) (server : String) (entries : List Entry) :
    (m.addEntries server entries).1 = m.recordAll (sightingsOf server entries) := by
  induction entries generalizing m with
  | nil => rfl
  | cons e rest ih =>
      rw [addEntries, sightingsOf, List.map_cons, ← sightingsOf, recordAll, List.foldl_cons,
        ← recordAll, record]
      cases m.add ⟨e.name, server, e.stat⟩ with
      | ok m' => exact ih m'
      | error code => exact ih m

theorem mergeListings_eq_recordAll (listings : List (String × List Entry)) (m : Merge) :
    Union.mergeListings (listings.map fun l => (l.1, .ok l.2)) m =
      m.recordAll (sightingsIn listings) := by
  induction listings generalizing m with
  | nil => rfl
  | cons l rest ih =>
      rw [List.map_cons, Union.mergeListings, ih, addEntries_fst, sightingsIn, sightingsIn,
        List.flatMap_cons, recordAll, recordAll, recordAll, List.foldl_append]

theorem ofListings_eq (listings : List (String × List Entry)) :
    ofListings listings = ({} : Merge).recordAll (sightingsIn listings) :=
  mergeListings_eq_recordAll listings {}

/-- A file of this name on this server gets a tag: it opens one itself, or the name is that of a
directory, or of a file on another server. -/
def Tagged (calls : List Sighting) (name server : String) : Prop :=
  ['{', ':'] <:+: name.toList
    ∨ ∃ t ∈ calls, t.name = name ∧ (t.stat.isDirectory = true ∨ t.server ≠ server)

/-- There is a directory by the very name that a file gets with its tag. -/
def Clash (calls : List Sighting) : Prop :=
  ∃ s ∈ calls, s.stat.isDirectory = false ∧ Tagged calls s.name s.server
    ∧ ∃ t ∈ calls, t.stat.isDirectory = true ∧ t.name = attach s.name s.server

/-- A file is among the calls if it is recorded, perhaps with other attributes. -/
theorem mem_files_recordAll {name server : String} :
    (∃ s ∈ (({} : Merge).recordAll calls).files, s.name = name ∧ s.server = server) ↔
      ∃ s ∈ calls, s.stat.isDirectory = false ∧ s.name = name ∧ s.server = server := by
  constructor
  · rintro ⟨s, hs, rfl, rfl⟩
    obtain ⟨hmem, hfile⟩ := mem_files.mp hs
    rw [sightings_recordAll, List.nil_append] at hmem
    exact ⟨s, (accepted_sublist _ calls).subset hmem, hfile, rfl, rfl⟩
  · rintro ⟨s, hs, hfile, rfl, rfl⟩
    obtain ⟨t, ht, hrepeats⟩ := exists_repeats (m := {}) hs
    obtain ⟨hname, hserver, hkind⟩ := Sighting.repeats_iff.mp hrepeats
    exact ⟨t, mem_files.mpr ⟨ht, hkind.trans hfile⟩, hname, hserver⟩

theorem not_alone_recordAll_iff :
    ¬ (({} : Merge).recordAll calls).Alone s ↔ Tagged calls s.name s.server := by
  rw [alone_recordAll_iff]
  constructor
  · intro hnot
    by_contra htagged
    obtain ⟨hopener, hnone⟩ := not_or.mp htagged
    refine hnot ⟨fun t ht hname => ?_, fun t ht hdir hname => ?_, hopener⟩
    · obtain ⟨t', ht', -, hname', hserver'⟩ := mem_files_recordAll.mp ⟨t, ht, hname, rfl⟩
      by_contra hserver
      exact hnone ⟨t', ht', hname', .inr (hserver' ▸ hserver)⟩
    · exact hnone ⟨t, ht, hname, .inl hdir⟩
  · rintro (hopener | ⟨t, ht, hname, hother⟩) ⟨honly, hno, hnone⟩
    · exact hnone hopener
    · cases hdir : t.stat.isDirectory with
      | true => exact hno t ht hdir hname
      | false =>
          rw [hdir, or_iff_right Bool.false_ne_true] at hother
          obtain ⟨t', ht', hname', hserver'⟩ := mem_files_recordAll.mpr ⟨t, ht, hdir, hname, rfl⟩
          exact hother (hserver' ▸ honly t' ht' hname')

theorem clashes_recordAll_iff : (({} : Merge).recordAll calls).Clashes ↔ Clash calls := by
  constructor
  · rintro ⟨s, hs, hnot, t, ht, hname⟩
    obtain ⟨s', hs', hfile, hsname, hserver⟩ := mem_files_recordAll.mp ⟨s, hs, rfl, rfl⟩
    refine ⟨s', hs', hfile, ?_, ?_⟩
    · rw [hsname, hserver]
      exact not_alone_recordAll_iff.mp hnot
    · rw [hsname, hserver]
      exact mem_directories_recordAll.mp ⟨t, ht, hname⟩
  · rintro ⟨s, hs, hfile, htagged, hdirectory⟩
    obtain ⟨s', hs', hsname, hserver⟩ := mem_files_recordAll.mpr ⟨s, hs, hfile, rfl, rfl⟩
    refine ⟨s', hs', not_alone_recordAll_iff.mpr ?_, ?_⟩
    · rw [hsname, hserver]
      exact htagged
    · rw [hsname, hserver]
      exact mem_directories_recordAll.mpr hdirectory

theorem ascending_ofListings_iff {listings : List (String × List Entry)}
    (hfits : ∀ l ∈ listings, Fits l.1) :
    ((ofListings listings).listing.map (·.name)).Pairwise (· < ·) ↔
      ¬ Clash (sightingsIn listings) := by
  have hservers : ∀ s ∈ sightingsIn listings, Fits s.server := by
    intro s hs
    obtain ⟨l, hl, hserver, -⟩ := mem_sightingsIn.mp hs
    exact hserver ▸ hfits l hl
  rw [ofListings_eq,
    (distinct_empty.recordAll _).ascending_iff (fits_recordAll hservers), clashes_recordAll_iff]

end Merge

/-! ## What is listed at a path -/

namespace Union

variable {α : Type}

/-- The answers that are successes. -/
def given (answers : List (String × Outcome α)) : List (String × α) :=
  answers.filterMap fun a => a.2.toOption.map (a.1, ·)

theorem exists_firstSuccess_iff (last : Code) {answers : List (String × Outcome α)} :
    (∃ value, firstSuccess last answers = .ok value) ↔ given answers ≠ [] := by
  induction answers generalizing last with
  | nil =>
      constructor
      · rintro ⟨value, h⟩
        cases h
      · intro h
        exact absurd rfl h
  | cons a rest ih =>
      obtain ⟨server, answer⟩ := a
      cases answer with
      | ok value => exact ⟨fun _ => List.cons_ne_nil _ _, fun _ => ⟨_, rfl⟩⟩
      | error code => exact ih code

/-- Servers that give no listing add nothing. -/
theorem mergeListings_given (answers : List (String × Outcome (List Entry))) (m : Merge) :
    mergeListings answers m = mergeListings ((given answers).map fun l => (l.1, .ok l.2)) m := by
  induction answers generalizing m with
  | nil => rfl
  | cons a rest ih =>
      obtain ⟨server, answer⟩ := a
      cases answer with
      | ok entries => exact ih _
      | error code => exact ih m

/-- **Listings are merged if a server gives one.** -/
theorem mergedListing_eq_ok_iff {answers : List (String × Outcome (List Entry))}
    {listing : List Entry} : mergedListing answers = .ok listing ↔
      given answers ≠ [] ∧ listing = (Merge.ofListings (given answers)).listing := by
  rw [← exists_firstSuccess_iff .notFound, mergedListing, mergeListings_given,
    ← Merge.ofListings]
  cases firstSuccess .notFound answers with
  | error code =>
      constructor
      · intro h
        cases h
      · rintro ⟨⟨value, h⟩, -⟩
        cases h
  | ok value =>
      constructor
      · intro h
        cases h
        exact ⟨⟨value, rfl⟩, rfl⟩
      · rintro ⟨-, rfl⟩
        rfl

end Union

namespace Peers

variable {ps : Peers} {u : Union} {path : String}

/-- The servers of the union that are connected. -/
def up (ps : Peers) (u : Union) : List String := u.servers.filter ps.connected

/-- The listings that the connected servers give of a directory. -/
def listings (ps : Peers) (u : Union) (d : String) : List (String × List Entry) :=
  Union.given ((ps.up u).map fun s => (s, ps.reply s (.readdir d)))

theorem run_connected (ps : Peers) (u : Union) : ps.run u.connected = ps.up u := by
  rw [Union.connected, up]
  induction u.servers with
  | nil => rfl
  | cons s rest ih =>
      rw [Union.connectedOf, run_bind, run_bind, ih, List.filter_cons]
      rfl

/-- **What is listed at a path without a tag.** -/
theorem run_readdir_of_untagged (hpath : (Address.ofPath path).server = "") :
    ps.run (u.readdir path) = Union.mergedListing
      ((ps.up u).map fun s => (s, ps.reply s (.readdir (Address.ofPath path).path))) := by
  rw [Union.readdir, Union.route_of_untagged hpath]
  dsimp only
  rw [run_bind, run_bind, run_connected, run_askEach]
  rfl

/-- **The names in a merged listing ascend, unless a directory has the tagged name of a file**, and
such a listing is what the union gives at a path without a tag, if a connected server gives one. -/
theorem ascending_listing_iff (listings : List (String × List Entry))
    (hfits : ∀ l ∈ listings, Fits l.1) :
    (((Merge.ofListings listings).listing.map (·.name)).Pairwise (· < ·) ↔
        ¬ Merge.Clash (Merge.sightingsIn listings))
      ∧ ∀ (ps : Peers) (u : Union) (path : String), (Address.ofPath path).server = "" →
        ps.listings u (Address.ofPath path).path = listings → listings ≠ [] →
          ps.run (u.readdir path) = .ok (Merge.ofListings listings).listing := by
  refine ⟨Merge.ascending_ofListings_iff hfits, ?_⟩
  rintro ps u path hpath rfl hgiven
  rw [run_readdir_of_untagged hpath]
  exact Union.mergedListing_eq_ok_iff.mpr ⟨hgiven, rfl⟩

/-! A file on two servers, and on one of them a directory by the name that its copy gets. -/

def sampleClash : List (String × List Entry) :=
  [("alpha", [⟨"x", sampleFile⟩, ⟨"x\x7b:alpha:\x7d", sampleDirectory⟩]),
    ("beta", [⟨"x", sampleFile⟩])]

/-- Two servers with these listings. -/
def sampleClashing : Peers where
  connected _ := true
  reply
    | server, .readdir _ => .ok ((sampleClash.lookup server).getD [])
    | _, _ => .error .notFound

theorem clash_sample : Merge.Clash (Merge.sightingsIn sampleClash) := by
  refine ⟨⟨"x", "alpha", sampleFile⟩, by decide, by decide, .inr ?_, ?_⟩
  · exact ⟨⟨"x", "beta", sampleFile⟩, by decide, rfl, .inr (by decide)⟩
  · exact ⟨⟨"x\x7b:alpha:\x7d", "alpha", sampleDirectory⟩, by decide, by decide, by decide⟩

theorem fits_sampleClash : ∀ l ∈ sampleClash, Fits l.1 := by
  have halpha : Fits "alpha" := ⟨by decide, by decide⟩
  have hbeta : Fits "beta" := ⟨by decide, by decide⟩
  simp [sampleClash, halpha, hbeta]

theorem ascending_listing_iff_sample :
    ¬ ((Merge.ofListings sampleClash).listing.map (·.name)).Pairwise (· < ·)
      ∧ sampleClashing.run (sampleUnion.readdir "/") =
        .ok (Merge.ofListings sampleClash).listing := by
  have h := ascending_listing_iff sampleClash fits_sampleClash
  exact ⟨fun hascending => h.1.mp hascending clash_sample,
    h.2 sampleClashing sampleUnion "/" (by decide) rfl (by decide)⟩

/-- **Names in a merged listing are not always unique**, though each server lists distinct names and
no server's name can be mistaken. -/
theorem not_always_ascending :
    ¬ ∀ listings : List (String × List Entry), (listings.map (·.1)).Nodup →
      (∀ l ∈ listings, l.1 ≠ "" ∧ '/' ∉ l.1.toList ∧ ¬ ['{', ':'] <:+: l.1.toList
        ∧ ¬ [':', '}'] <:+: l.1.toList) →
      (∀ l ∈ listings, (l.2.map (·.name)).Nodup ∧ ∀ e ∈ l.2, '/' ∉ e.name.toList) →
        ((Merge.ofListings listings).listing.map (·.name)).Pairwise (· < ·) := by
  intro hall
  have hascending := hall sampleClash (by decide) (by decide) (by decide)
  exact (Merge.ascending_ofListings_iff fits_sampleClash).mp hascending clash_sample

end Peers

end UnionFS
