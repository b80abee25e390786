import Mathlib.Data.List.Forall2
import UnionFS.Proofs.Keyed
import UnionFS.Proofs.Union.Recording

/-!
# Order of arrival

Servers answer in any order, and what a merge lists does not show in which: as long as nothing is
listed twice, another order of the same sightings gives the same names in the same order, with the
same attributes at all that is not a directory.  Of a directory the attributes are those of the
server that came first, so that the listings are equal if the servers agree on them (`unordered`).

A listing is sorted by name, and so told by what it holds of each name, and in which order.  Under
one name there is at most one directory, before the files; and the files that are listed under one
name have names of their own that differ, by which they have been sorted before
(`Distinct.eq_of_listedName_of_name`).  So neither depends on the order of arrival.
-/

namespace UnionFS

open Tag

namespace Entry

/-- What an entry shows whichever server came first: its name, and the attributes of what is no
directory. -/
def face (e : Entry) : String × Option Stat :=
  (e.name, if e.stat.isDirectory then none else some e.stat)

/-- Two entries of one name, with the same attributes unless they are directories. -/
structure Alike (e e' : Entry) : Prop where
  name : e.name = e'.name
  stat : e.stat.isDirectory = false ∨ e'.stat.isDirectory = false → e.stat = e'.stat

variable {e e' : Entry}

theorem alike_of_face (h : e.face = e'.face) : e.Alike e' := by
  obtain ⟨hname, hstat⟩ := Prod.mk.inj h
  refine ⟨hname, fun hkind => ?_⟩
  cases hdir : e.stat.isDirectory <;> cases hdir' : e'.stat.isDirectory <;> simp_all

end Entry

namespace Merge

variable {m m' : Merge} {s t : Sighting} {calls calls' : List Sighting}

/-! ## Files -/

theorem listedName_of_perm (h : m.sightings.Perm m'.sightings) : m.listedName = m'.listedName := by
  funext s
  have hfiles : (m.files.filter (·.name == s.name)).length =
      (m'.files.filter (·.name == s.name)).length :=
    ((h.filter _).filter _).length_eq
  have hdirectories : m.directories.any (·.name == s.name) =
      m'.directories.any (·.name == s.name) :=
    (h.filter _).any_eq
  rw [listedName, listedName, keepsName, keepsName, hfiles, hdirectories]

/-- The name that a file is listed by and its own tell the file, whatever the names of the
servers. -/
theorem Distinct.eq_of_listedName_of_name (h : m.Distinct) (hs : s ∈ m.files) (ht : t ∈ m.files)
    (hlisted : m.listedName s = m.listedName t) (hname : s.name = t.name) : s = t := by
  by_cases hsalone : m.Alone s
  · exact h.eq_of_files hs ht hname (hsalone.only t ht hname.symm).symm
  · by_cases htalone : m.Alone t
    · exact h.eq_of_files hs ht hname (htalone.only s hs hname)
    · -- both have their tags, behind the same name
      rw [h.listedName_of_not_alone hs hsalone, h.listedName_of_not_alone ht htalone, attach,
        attach, hname] at hlisted
      have hserver := String.ofList_injective hlisted
      simp only [List.append_assoc, List.append_cancel_left_eq, List.append_cancel_right_eq,
        String.toList_inj] at hserver
      exact h.eq_of_files hs ht hname hserver

/-- Files in the order of their own names, of which those that are listed under one name have
each another. -/
theorem Distinct.pairwise_files (h : m.Distinct) (k : String) :
    ((m.files.mergeSort fun a b => a.name ≤ b.name).filter (m.listedName · == k)).Pairwise
      fun s t => s.name < t.name := by
  have hnodup : (m.files.mergeSort fun a b => a.name ≤ b.name).Nodup :=
    (List.mergeSort_perm _ _).nodup_iff.mpr (List.Nodup.of_map _ h.nodup_files)
  have hapart := ((pairwise_mergeSort_key Sighting.name m.files).and hnodup).filter
    (m.listedName · == k)
  refine hapart.imp_of_mem fun {s t} hs ht hst => ?_
  obtain ⟨hsfile, hsname⟩ := List.mem_filter.mp hs
  obtain ⟨htfile, htname⟩ := List.mem_filter.mp ht
  refine Std.lt_of_le_of_ne hst.1 fun hname => hst.2 ?_
  exact h.eq_of_listedName_of_name (List.mem_mergeSort.mp hsfile) (List.mem_mergeSort.mp htfile)
    ((eq_of_beq hsname).trans (eq_of_beq htname).symm) hname

/-- **The files under one name stand in an order of their own.** -/
theorem Distinct.filter_fileEntries_of_perm (h : m.Distinct) (h' : m'.Distinct)
    (hperm : m.sightings.Perm m'.sightings) (k : String) :
    m.fileEntries.filter (·.name == k) = m'.fileEntries.filter (·.name == k) := by
  have hlisted := listedName_of_perm hperm
  have hfiles := h.pairwise_files k
  rw [hlisted] at hfiles
  have hsorted : (m.files.mergeSort fun a b => a.name ≤ b.name).Perm
      (m'.files.mergeSort fun a b => a.name ≤ b.name) :=
    (List.mergeSort_perm _ _).trans ((hperm.filter _).trans (List.mergeSort_perm _ _).symm)
  -- names that ascend leave one order to the same files
  have heq := List.Perm.eq_of_pairwise
    (fun s t _ _ hst hts => absurd (String.lt_trans hst hts) (String.lt_irrefl _))
    hfiles (h'.pairwise_files k) (hsorted.filter _)
  rw [fileEntries, fileEntries, List.filter_map, List.filter_map, hlisted]
  exact congrArg _ heq

/-! ## Directories -/

theorem perm_names_directoryEntries (hperm : m.sightings.Perm m'.sightings) :
    (m.directoryEntries.map (·.name)).Perm (m'.directoryEntries.map (·.name)) := by
  refine (List.perm_ext_iff_of_nodup m.nodup_directoryEntries m'.nodup_directoryEntries).mpr
    fun name => ?_
  rw [mem_directoryEntries_iff, mem_directoryEntries_iff]
  exact exists_congr fun s => and_congr_left fun _ => (hperm.filter _).mem_iff

theorem map_face_directoryEntries (m : Merge) :
    m.directoryEntries.map Entry.face = (m.directoryEntries.map (·.name)).map (·, none) := by
  rw [List.map_map]
  refine List.map_congr_left fun e he => ?_
  rw [Entry.face, isDirectory_of_mem_directoryEntries he]
  rfl

theorem filter_face_of_perm (hperm : m.sightings.Perm m'.sightings) (k : String) :
    (m.directoryEntries.map Entry.face).filter (·.1 == k) =
      (m'.directoryEntries.map Entry.face).filter (·.1 == k) := by
  have hfaces (m : Merge) : (m.directoryEntries.map Entry.face).filter (·.1 == k) =
      ((m.directoryEntries.map (·.name)).filter (· == k)).map (·, none) := by
    rw [map_face_directoryEntries, List.filter_map]
    rfl
  rw [hfaces, hfaces, List.filter_beq, List.filter_beq,
    (perm_names_directoryEntries hperm).count_eq]

theorem exists_directory_of_mem_listing {e : Entry} (he : e ∈ m.listing)
    (hdir : e.stat.isDirectory = true) :
    ∃ s ∈ m.sightings, s.stat.isDirectory = true ∧ e = ⟨s.name, s.stat⟩ := by
  rcases mem_listing.mp he with he | ⟨s, hs, rfl⟩
  · obtain ⟨s, hs, rfl⟩ := List.mem_map.mp he
    exact ⟨s, (mem_directories.mp (mem_firstOfEach hs)).1, hdir, rfl⟩
  · rw [(mem_files.mp hs).2] at hdir
    cases hdir

/-! ## The listing -/

theorem filter_face_listing (m : Merge) (k : String) :
    (m.listing.map Entry.face).filter (·.1 == k) =
      (m.directoryEntries.map Entry.face).filter (·.1 == k)
        ++ (m.fileEntries.filter (·.name == k)).map Entry.face := by
  have hlisting := filter_mergeSort Entry.name (m.directoryEntries ++ m.fileEntries) k
  rw [List.filter_append] at hlisting
  rw [List.filter_map, List.filter_map, ← List.map_append]
  exact congrArg _ hlisting

/-- **Two merges of the same sightings show the same**, in whatever order they recorded them. -/
theorem Distinct.map_face_of_perm (h : m.Distinct) (h' : m'.Distinct)
    (hperm : m.sightings.Perm m'.sightings) :
    m.listing.map Entry.face = m'.listing.map Entry.face := by
  have hsorted (m : Merge) : (m.listing.map Entry.face).Pairwise fun a b => a.1 ≤ b.1 :=
    List.pairwise_map.mpr m.listing_pairwise
  refine eq_of_filter_eq (hsorted m) (hsorted m') fun k => ?_
  rw [filter_face_listing, filter_face_listing, filter_face_of_perm hperm,
    h.filter_fileEntries_of_perm h' hperm]

/-- All have the same attributes for a directory. -/
def Agreed (calls : List Sighting) : Prop :=
  ∀ s ∈ calls, ∀ t ∈ calls, s.stat.isDirectory = true → t.stat.isDirectory = true →
    s.name = t.name → s.stat = t.stat

theorem eq_of_forall₂_alike {l l' : List Entry} (h : List.Forall₂ Entry.Alike l l')
    (hstat : ∀ e ∈ l, ∀ e' ∈ l', e.stat.isDirectory = true → e'.stat.isDirectory = true →
      e.name = e'.name → e.stat = e'.stat) : l = l' := by
  induction h with
  | nil => rfl
  | @cons e e' l l' halike _ ih =>
      have hsame : e.stat = e'.stat := by
        by_cases hkind : e.stat.isDirectory = false ∨ e'.stat.isDirectory = false
        · exact halike.stat hkind
        · rw [not_or, Bool.not_eq_false, Bool.not_eq_false] at hkind
          exact hstat e List.mem_cons_self e' List.mem_cons_self hkind.1 hkind.2 halike.name
      have hhead : e = e' := by
        cases e
        cases e'
        obtain ⟨rfl, -⟩ := halike
        obtain rfl := hsame
        rfl
      have hrest : l = l' := ih fun x hx y hy =>
        hstat x (List.mem_cons_of_mem _ hx) y (List.mem_cons_of_mem _ hy)
      rw [hhead, hrest]

theorem sightings_recordAll_of_nodup (h : ((m.sightings ++ calls).map Sighting.key).Nodup) :
    (m.recordAll calls).sightings = m.sightings ++ calls := by
  induction calls generalizing m with
  | nil => rw [List.append_nil]; rfl
  | cons s rest ih =>
      have hrecord : m.record s = ⟨m.sightings ++ [s]⟩ := by
        rcases add_cases m s with ⟨hadd, -⟩ | ⟨-, t, ht, hrepeats⟩
        · rw [record, hadd]
        · rw [List.map_append, List.map_cons, List.nodup_append] at h
          exact absurd (Sighting.repeats_iff_key.mp hrepeats)
            (h.2.2 _ (List.mem_map_of_mem ht) _ List.mem_cons_self)
      have hnext : (m.recordAll (s :: rest)) = (m.record s).recordAll rest := rfl
      rw [hnext, hrecord, ih]
      · rw [List.append_assoc]
        rfl
      · rw [List.append_assoc]
        exact h

/-! ## The law -/

/-- What two orders of the same calls have in common. -/
structure Unordered (calls calls' : List Sighting) : Prop where
  /-- All calls are recorded, in either order. -/
  recorded : (({} : Merge).recordAll calls).sightings = calls
    ∧ (({} : Merge).recordAll calls').sightings = calls'
  /-- Place by place the listings have the same names, and the same attributes at all that is no
  directory. -/
  alike : List.Forall₂ Entry.Alike (({} : Merge).recordAll calls).listing
    (({} : Merge).recordAll calls').listing
  /-- If the servers agree on the directories' attributes, the listings are equal. -/
  equal : Agreed calls →
    (({} : Merge).recordAll calls).listing = (({} : Merge).recordAll calls').listing

/-- **What is listed does not depend on the order in which the servers' names arrive.** -/
theorem unordered (hdistinct : (calls.map Sighting.key).Nodup) (hperm : calls.Perm calls') :
    Unordered calls calls' := by
  have hcalls : (({} : Merge).recordAll calls).sightings = calls :=
    sightings_recordAll_of_nodup hdistinct
  have hcalls' : (({} : Merge).recordAll calls').sightings = calls' :=
    sightings_recordAll_of_nodup ((hperm.map _).nodup_iff.mp hdistinct)
  have hsightings : (({} : Merge).recordAll calls).sightings.Perm
      (({} : Merge).recordAll calls').sightings := by
    rw [hcalls, hcalls']
    exact hperm
  -- the faces are equal, and say all but the attributes of directories
  have hfaces := (distinct_empty.recordAll calls).map_face_of_perm
    (distinct_empty.recordAll calls') hsightings
  have halike : List.Forall₂ Entry.Alike (({} : Merge).recordAll calls).listing
      (({} : Merge).recordAll calls').listing := by
    rw [← List.forall₂_eq_eq_eq, List.forall₂_map_left_iff, List.forall₂_map_right_iff] at hfaces
    exact hfaces.imp fun _ _ => Entry.alike_of_face
  refine ⟨⟨hcalls, hcalls'⟩, halike, fun hagreed => eq_of_forall₂_alike halike ?_⟩
  intro e he e' he' hdir hdir' hname
  obtain ⟨s, hs, hsdir, rfl⟩ := exists_directory_of_mem_listing he hdir
  obtain ⟨t, ht, htdir, rfl⟩ := exists_directory_of_mem_listing he' hdir'
  rw [hcalls] at hs
  rw [hcalls'] at ht
  exact hagreed s hs t (hperm.mem_iff.mpr ht) hsdir htdir hname

/-- A directory on two servers, a file on both, and two files that are listed under one name. -/
def sampleArrivals : List Sighting :=
  [⟨"d", "alpha", Peers.sampleDirectory⟩, ⟨"x", "alpha", Peers.sampleFile⟩,
    ⟨"a\x7b:b", "c", { Peers.sampleFile with size := 1 }⟩, ⟨"d", "beta", Peers.sampleDirectory⟩,
    ⟨"x", "beta", { Peers.sampleFile with size := 2 }⟩, ⟨"d\x7b:d", "e", Peers.sampleFile⟩,
    ⟨"a", "b\x7b:c", { Peers.sampleFile with size := 3 }⟩,
    ⟨"a", "beta", { Peers.sampleFile with size := 4 }⟩]

theorem unordered_sample :
    (sampleArrivals.map Sighting.key).Nodup ∧ sampleArrivals.Perm sampleArrivals.reverse
      ∧ Unordered sampleArrivals sampleArrivals.reverse := by
  have hdistinct : (sampleArrivals.map Sighting.key).Nodup := by decide
  have hperm : sampleArrivals.Perm sampleArrivals.reverse := (List.reverse_perm _).symm
  exact ⟨hdistinct, hperm, unordered hdistinct hperm⟩

end Merge
end UnionFS
