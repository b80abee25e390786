import Mathlib.Data.List.Nodup
import UnionFS.Proofs.Union.Listing

/-!
# What a merged listing is made of

Sightings are recorded one after another, and those that repeat an earlier one are left out.  In the
listing that comes of them each recorded file stands once, with its own attributes and under a name
that leads back to it, and each name of a directory stands once (`accounted_recordAll`).

What carries this is that no two recorded sightings repeat each other (`Distinct`).  So a file is
told by its name and its server, and the name that it is listed by tells both: a tag is read back as
it was attached, and a file without a tag is the only one of its name (`Distinct.eq_of_listedName`).
-/

namespace UnionFS

open Tag

namespace Tag

theorem hasOpener_iff {name : String} : hasOpener name = true ↔ ['{', ':'] <:+: name.toList := by
  rw [hasOpener, splitOpener, isSome_splitLast_iff]
  constructor
  · rintro ⟨u, v, h⟩
    exact ⟨u, v, by rw [h, List.append_assoc]; rfl⟩
  · rintro ⟨u, v, h⟩
    exact ⟨u, v, by rw [← h, List.append_assoc]; rfl⟩

theorem hasOpener_attach (name server : String) : hasOpener (attach name server) = true := by
  refine hasOpener_iff.mpr ⟨name.toList, server.toList ++ [':', '}'], ?_⟩
  rw [attach, String.toList_ofList, List.append_assoc (_ ++ _)]

/-- The name of a server that can stand in a tag: it ends no segment and opens no tag itself. -/
structure Fits (server : String) : Prop where
  no_slash : '/' ∉ server.toList
  no_opener : ¬ ['{', ':'] <:+: server.toList

variable {name name' server server' : String}

theorem Fits.ofPath_attach (h : Fits server) (path : String) :
    Address.ofPath (attach path server) = ⟨server, path⟩ := by
  refine Address.ofPath_attach path h.no_slash ?_
  rw [← Bool.not_eq_true, hasOpener_iff]
  exact h.no_opener

/-- A tagged name tells the name and the server. -/
theorem attach_inj (h : Fits server) (h' : Fits server')
    (heq : attach name server = attach name' server') : name = name' ∧ server = server' := by
  have haddress := h.ofPath_attach name
  rw [heq, h'.ofPath_attach] at haddress
  obtain ⟨hserver, hname⟩ := Address.mk.inj haddress
  exact ⟨hname.symm, hserver.symm⟩

end Tag

namespace Sighting

variable {a b c : Sighting}

theorem repeats_iff : a.repeats b = true ↔
    a.name = b.name ∧ a.server = b.server ∧ a.stat.isDirectory = b.stat.isDirectory := by
  simp [repeats, and_assoc]

theorem repeats_self (a : Sighting) : a.repeats a = true :=
  repeats_iff.mpr ⟨rfl, rfl, rfl⟩

end Sighting

namespace Merge

variable {m : Merge} {s t : Sighting} {calls : List Sighting} {l : List Sighting}

/-! ## Recording -/

/-- The merge with one more sighting, unless that is refused. -/
def record (m : Merge) (s : Sighting) : Merge :=
  match m.add s with
  | .ok m' => m'
  | .error _ => m

/-- The merge with some more sightings, one after another. -/
def recordAll (m : Merge) (calls : List Sighting) : Merge :=
  calls.foldl record m

/-- Those of the sightings that are not refused, one after another. -/
def accepted (m : Merge) : List Sighting → List Sighting
  | [] => []
  | s :: rest =>
    match m.add s with
    | .ok m' => s :: m'.accepted rest
    | .error _ => m.accepted rest

/-- A sighting is added at the end, or it repeats one that is there and is refused. -/
theorem add_cases (m : Merge) (s : Sighting) :
    (m.add s = .ok ⟨m.sightings ++ [s]⟩ ∧ ∀ t ∈ m.sightings, t.repeats s = false)
      ∨ (m.add s = .error .alreadyExists ∧ ∃ t ∈ m.sightings, t.repeats s = true) := by
  unfold add
  by_cases h : m.sightings.any (·.repeats s) = true
  · exact .inr ⟨if_pos h, List.any_eq_true.mp h⟩
  · refine .inl ⟨if_neg h, fun t ht => ?_⟩
    rw [← Bool.not_eq_true]
    exact fun hrepeats => h (List.any_eq_true.mpr ⟨t, ht, hrepeats⟩)

/-- What is recorded is what was there and what was accepted. -/
theorem sightings_recordAll (m : Merge) (calls : List Sighting) :
    (m.recordAll calls).sightings = m.sightings ++ m.accepted calls := by
  induction calls generalizing m with
  | nil => exact (List.append_nil _).symm
  | cons s rest ih =>
      rw [recordAll, List.foldl_cons, ← recordAll, ih, record, accepted]
      rcases add_cases m s with ⟨h, -⟩ | ⟨h, -⟩
      · rw [h]
        exact List.append_assoc _ _ _
      · rw [h]

theorem accepted_sublist (m : Merge) (calls : List Sighting) :
    List.Sublist (m.accepted calls) calls := by
  induction calls generalizing m with
  | nil => exact .slnil
  | cons s rest ih =>
      rw [accepted]
      rcases add_cases m s with ⟨h, -⟩ | ⟨h, -⟩
      · rw [h]
        exact (ih _).cons_cons s
      · rw [h]
        exact (ih m).cons s

/-- No recorded sighting repeats another. -/
def Distinct (m : Merge) : Prop :=
  m.sightings.Pairwise fun s t => s.repeats t = false

theorem distinct_empty : ({} : Merge).Distinct := .nil

theorem Distinct.record (h : m.Distinct) (s : Sighting) : (m.record s).Distinct := by
  rw [Merge.record]
  rcases add_cases m s with ⟨hadd, hnew⟩ | ⟨hadd, -⟩
  · rw [hadd]
    refine List.pairwise_append.mpr ⟨h, List.pairwise_singleton _ _, fun t ht s' hs' => ?_⟩
    rw [List.mem_singleton.mp hs']
    exact hnew t ht
  · rw [hadd]
    exact h

/-- **Whatever is recorded, no sighting repeats another.** -/
theorem Distinct.recordAll (h : m.Distinct) (calls : List Sighting) :
    (m.recordAll calls).Distinct := by
  induction calls generalizing m with
  | nil => exact h
  | cons s rest ih => exact ih (h.record s)

theorem mem_recordAll_of_mem (h : s ∈ m.sightings) (calls : List Sighting) :
    s ∈ (m.recordAll calls).sightings := by
  rw [sightings_recordAll]
  exact List.mem_append_left _ h

/-- A sighting that is refused repeats one that is recorded. -/
theorem exists_repeats (h : s ∈ calls) :
    ∃ t ∈ (m.recordAll calls).sightings, t.repeats s = true := by
  induction calls generalizing m with
  | nil => cases h
  | cons c rest ih =>
      rcases List.mem_cons.mp h with rfl | h
      · rw [recordAll, List.foldl_cons, ← recordAll, record]
        rcases add_cases m s with ⟨hadd, -⟩ | ⟨hadd, t, ht, hrepeats⟩
        · rw [hadd]
          have hs : s ∈ m.sightings ++ [s] := List.mem_append_right _ (List.mem_singleton_self s)
          exact ⟨s, mem_recordAll_of_mem hs rest, s.repeats_self⟩
        · rw [hadd]
          exact ⟨t, mem_recordAll_of_mem ht rest, hrepeats⟩
      · exact ih h

/-! ## The listing -/

theorem mem_files : s ∈ m.files ↔ s ∈ m.sightings ∧ s.stat.isDirectory = false := by
  rw [files, List.mem_filter, Bool.not_eq_true']

theorem mem_directories : s ∈ m.directories ↔ s ∈ m.sightings ∧ s.stat.isDirectory = true :=
  List.mem_filter

/-- Of the recorded files each has another name or another server. -/
theorem Distinct.nodup_files (h : m.Distinct) :
    (m.files.map fun s => (s.name, s.server)).Nodup := by
  refine List.pairwise_map.mpr (List.Pairwise.imp_of_mem ?_ (List.Pairwise.filter _ h))
  intro s t hs ht hrepeats heq
  obtain ⟨hname, hserver⟩ := Prod.mk.inj heq
  have hkind : s.stat.isDirectory = t.stat.isDirectory :=
    (mem_files.mp hs).2.trans (mem_files.mp ht).2.symm
  rw [Sighting.repeats_iff.mpr ⟨hname, hserver, hkind⟩] at hrepeats
  cases hrepeats

theorem Distinct.eq_of_files (h : m.Distinct) (hs : s ∈ m.files) (ht : t ∈ m.files)
    (hname : s.name = t.name) (hserver : s.server = t.server) : s = t :=
  List.inj_on_of_nodup_map h.nodup_files hs ht (Prod.ext hname hserver)

theorem perm_listing (m : Merge) : m.listing.Perm (m.directoryEntries ++ m.fileEntries) :=
  List.mergeSort_perm _ _

/-- The entries of files are the recorded files, under the names that they are listed by. -/
theorem perm_files (m : Merge) : (m.listing.filter (!·.stat.isDirectory)).Perm
    (m.files.map fun s => ⟨m.listedName s, s.stat⟩) := by
  have hdirectories : m.directoryEntries.filter (!·.stat.isDirectory) = [] := by
    refine List.filter_eq_nil_iff.mpr fun e he => ?_
    rw [isDirectory_of_mem_directoryEntries he]
    exact Bool.false_ne_true
  have hfiles : m.fileEntries.filter (!·.stat.isDirectory) = m.fileEntries := by
    refine List.filter_eq_self.mpr fun e he => ?_
    obtain ⟨s, hs, rfl⟩ := List.mem_map.mp he
    exact (List.mem_filter.mp (List.mem_mergeSort.mp hs)).2
  have hperm := m.perm_listing.filter (!·.stat.isDirectory)
  rw [List.filter_append, hdirectories, hfiles, List.nil_append] at hperm
  exact hperm.trans ((List.mergeSort_perm _ _).map _)

/-- The entries of directories are one for each name. -/
theorem perm_directories (m : Merge) :
    (m.listing.filter (·.stat.isDirectory)).Perm m.directoryEntries := by
  have hdirectories : m.directoryEntries.filter (·.stat.isDirectory) = m.directoryEntries :=
    List.filter_eq_self.mpr fun e he => isDirectory_of_mem_directoryEntries he
  have hfiles : m.fileEntries.filter (·.stat.isDirectory) = [] := by
    refine List.filter_eq_nil_iff.mpr fun e he => ?_
    obtain ⟨s, hs, rfl⟩ := List.mem_map.mp he
    rw [(mem_files.mp (List.mem_mergeSort.mp hs)).2]
    exact Bool.false_ne_true
  have hperm := m.perm_listing.filter (·.stat.isDirectory)
  rwa [List.filter_append, hdirectories, hfiles, List.append_nil] at hperm

theorem nodup_firstOfEach (l : List Sighting) : ((firstOfEach l).map (·.name)).Nodup :=
  nodup_firstsBy Sighting.name l

theorem exists_mem_firstOfEach (h : s ∈ l) : ∃ t ∈ firstOfEach l, t.name = s.name :=
  exists_mem_firstsBy h

theorem nodup_directoryEntries (m : Merge) : (m.directoryEntries.map (·.name)).Nodup := by
  rw [directoryEntries, List.map_map]
  exact nodup_firstOfEach m.directories

theorem mem_directoryEntries_iff {name : String} :
    name ∈ m.directoryEntries.map (·.name) ↔ ∃ s ∈ m.directories, s.name = name := by
  rw [directoryEntries, List.map_map, List.mem_map]
  constructor
  · rintro ⟨s, hs, rfl⟩
    exact ⟨s, mem_firstOfEach hs, rfl⟩
  · rintro ⟨s, hs, rfl⟩
    exact exists_mem_firstOfEach hs

/-! ## Names of files -/

/-- The file is the only one of its name, no directory has the name, and it opens no tag. -/
structure Alone (m : Merge) (s : Sighting) : Prop where
  only : ∀ t ∈ m.files, t.name = s.name → t.server = s.server
  no_directory : ∀ t ∈ m.directories, t.name ≠ s.name
  no_opener : ¬ ['{', ':'] <:+: s.name.toList

theorem Distinct.length_eq_one_iff (h : m.Distinct) (hs : s ∈ m.files) :
    (m.files.filter (·.name == s.name)).length = 1 ↔
      ∀ t ∈ m.files, t.name = s.name → t.server = s.server := by
  have mem_iff (t : Sighting) :
      t ∈ m.files.filter (·.name == s.name) ↔ t ∈ m.files ∧ t.name = s.name := by
    rw [List.mem_filter, beq_iff_eq]
  constructor
  · intro hone t ht hname
    obtain ⟨x, hx⟩ := List.length_eq_one_iff.mp hone
    have htx := (mem_iff t).mpr ⟨ht, hname⟩
    have hsx := (mem_iff s).mpr ⟨hs, rfl⟩
    rw [hx] at htx hsx
    rw [List.mem_singleton.mp htx, List.mem_singleton.mp hsx]
  · intro honly
    have hnodup : (m.files.filter (·.name == s.name)).Nodup :=
      (List.Nodup.of_map _ h.nodup_files).filter _
    have hperm : (m.files.filter (·.name == s.name)).Perm [s] := by
      refine (List.perm_ext_iff_of_nodup hnodup (List.nodup_singleton s)).mpr fun t => ?_
      rw [mem_iff, List.mem_singleton]
      constructor
      · rintro ⟨ht, hname⟩
        exact h.eq_of_files ht hs hname (honly t ht hname)
      · rintro rfl
        exact ⟨hs, rfl⟩
    exact hperm.length_eq

/-- A file keeps its name if it is alone. -/
theorem Distinct.keepsName_iff (h : m.Distinct) (hs : s ∈ m.files) :
    m.keepsName s = true ↔ m.Alone s := by
  have hdirectory : m.directories.any (·.name == s.name) = false ↔
      ∀ t ∈ m.directories, t.name ≠ s.name := by simp
  rw [keepsName, Bool.and_eq_true, Bool.and_eq_true, beq_iff_eq, h.length_eq_one_iff hs,
    Bool.not_eq_true', hdirectory, Bool.not_eq_true', ← Bool.not_eq_true, hasOpener_iff]
  constructor
  · rintro ⟨⟨honly, hno⟩, hopener⟩
    exact ⟨honly, hno, hopener⟩
  · intro halone
    exact ⟨⟨halone.only, halone.no_directory⟩, halone.no_opener⟩

theorem Distinct.listedName_of_alone (h : m.Distinct) (hs : s ∈ m.files) (halone : m.Alone s) :
    m.listedName s = s.name :=
  if_pos ((h.keepsName_iff hs).mpr halone)

theorem Distinct.listedName_of_not_alone (h : m.Distinct) (hs : s ∈ m.files)
    (halone : ¬ m.Alone s) : m.listedName s = attach s.name s.server :=
  if_neg fun hkeeps => halone ((h.keepsName_iff hs).mp hkeeps)

/-- A tagged name is longer than the name. -/
theorem Distinct.listedName_eq_iff (h : m.Distinct) (hs : s ∈ m.files) :
    m.listedName s = s.name ↔ m.Alone s := by
  refine ⟨fun hname => ?_, h.listedName_of_alone hs⟩
  by_contra halone
  rw [h.listedName_of_not_alone hs halone] at hname
  have hlen := congrArg (fun name => name.toList.length) hname
  simp [attach] at hlen

/-- **The name that a file is listed by tells the file.** -/
theorem Distinct.eq_of_listedName (h : m.Distinct) (hfits : ∀ s ∈ m.sightings, Fits s.server)
    (hs : s ∈ m.files) (ht : t ∈ m.files) (heq : m.listedName s = m.listedName t) : s = t := by
  have untagged {a b : Sighting} (ha : a ∈ m.files) (hb : b ∈ m.files) (halone : m.Alone a)
      (hnot : ¬ m.Alone b) : m.listedName a ≠ m.listedName b := by
    intro hname
    rw [h.listedName_of_alone ha halone, h.listedName_of_not_alone hb hnot] at hname
    exact halone.no_opener (hname ▸ hasOpener_iff.mp (hasOpener_attach b.name b.server))
  by_cases hsalone : m.Alone s
  · by_cases htalone : m.Alone t
    · rw [h.listedName_of_alone hs hsalone, h.listedName_of_alone ht htalone] at heq
      exact h.eq_of_files hs ht heq (htalone.only s hs heq)
    · exact absurd heq (untagged hs ht hsalone htalone)
  · by_cases htalone : m.Alone t
    · exact absurd heq.symm (untagged ht hs htalone hsalone)
    · rw [h.listedName_of_not_alone hs hsalone, h.listedName_of_not_alone ht htalone] at heq
      obtain ⟨hname, hserver⟩ :=
        attach_inj (hfits s (mem_files.mp hs).1) (hfits t (mem_files.mp ht).1) heq
      exact h.eq_of_files hs ht hname hserver

theorem Distinct.nodup_listedNames (h : m.Distinct)
    (hfits : ∀ s ∈ m.sightings, Fits s.server) : (m.files.map m.listedName).Nodup :=
  List.Nodup.map_on (fun _ hs _ ht heq => h.eq_of_listedName hfits hs ht heq)
    (List.Nodup.of_map _ h.nodup_files)

/-- A bare name leads to any server, in every directory. -/
theorem Distinct.address_of_alone (h : m.Distinct) (hs : s ∈ m.files) (halone : m.Alone s)
    (d : String) :
    Address.ofPath (Path.under d (m.listedName s)) = ⟨"", Path.under d s.name⟩ := by
  have hopener : hasOpener s.name = false := by
    rw [← Bool.not_eq_true, hasOpener_iff]
    exact halone.no_opener
  rw [h.listedName_of_alone hs halone, Address.ofPath_under, Address.ofPath_of_no_opener hopener]

/-- A tagged name leads to the server of its tag. -/
theorem Distinct.address_of_not_alone (h : m.Distinct) (hfits : Fits s.server) (hs : s ∈ m.files)
    (halone : ¬ m.Alone s) (d : String) :
    Address.ofPath (Path.under d (m.listedName s)) = ⟨s.server, Path.under d s.name⟩ := by
  rw [h.listedName_of_not_alone hs halone, Address.ofPath_under, hfits.ofPath_attach]

/-! ## All that was recorded -/

/-- The merged listing is that of the calls: of the files among them that were accepted, and of the
names of the directories. -/
structure Accounted (calls : List Sighting) (m : Merge) (files : List Sighting) : Prop where
  /-- The files are told by their names and servers. -/
  pairs : (files.map fun s => (s.name, s.server)).Nodup
  /-- Each stands in the listing once, with its own attributes, and no other file does. -/
  listed : (m.listing.filter (!·.stat.isDirectory)).Perm
    (files.map fun s => ⟨m.listedName s, s.stat⟩)
  /-- No two stand there under one name. -/
  apart : (files.map m.listedName).Nodup
  /-- Each name of a directory stands there once. -/
  directories : ((m.listing.filter (·.stat.isDirectory)).map (·.name)).Nodup
    ∧ ∀ name, name ∈ (m.listing.filter (·.stat.isDirectory)).map (·.name) ↔
      ∃ s ∈ calls, s.stat.isDirectory = true ∧ s.name = name
  /-- A file keeps its name if no other server has a file of the name, no server has a directory of
  the name and the name opens no tag. -/
  keeps : ∀ s ∈ files, m.listedName s = s.name ↔
    (∀ t ∈ files, t.name = s.name → t.server = s.server)
      ∧ (∀ t ∈ calls, t.stat.isDirectory = true → t.name ≠ s.name)
      ∧ ¬ ['{', ':'] <:+: s.name.toList
  /-- And then its name leads to any server, in every directory. -/
  bare : ∀ s ∈ files, m.listedName s = s.name → ∀ d,
    Address.ofPath (Path.under d (m.listedName s)) = ⟨"", Path.under d s.name⟩
  /-- Any other file is tagged, and its name leads to its own server. -/
  tagged : ∀ s ∈ files, m.listedName s ≠ s.name → m.listedName s = attach s.name s.server
    ∧ ∀ d, Address.ofPath (Path.under d (m.listedName s)) = ⟨s.server, Path.under d s.name⟩

/-- A directory is among the calls if one of its name is recorded. -/
theorem mem_directories_recordAll {name : String} :
    (∃ s ∈ (({} : Merge).recordAll calls).directories, s.name = name) ↔
      ∃ s ∈ calls, s.stat.isDirectory = true ∧ s.name = name := by
  constructor
  · rintro ⟨s, hs, rfl⟩
    obtain ⟨hmem, hdir⟩ := mem_directories.mp hs
    rw [sightings_recordAll, List.nil_append] at hmem
    exact ⟨s, (accepted_sublist _ calls).subset hmem, hdir, rfl⟩
  · rintro ⟨s, hs, hdir, rfl⟩
    obtain ⟨t, ht, hrepeats⟩ := exists_repeats (m := {}) hs
    obtain ⟨hname, -, hkind⟩ := Sighting.repeats_iff.mp hrepeats
    exact ⟨t, mem_directories.mpr ⟨ht, hkind.trans hdir⟩, hname⟩

/-- Whether a recorded file is alone can be told from the calls. -/
theorem alone_recordAll_iff : (({} : Merge).recordAll calls).Alone s ↔
    (∀ t ∈ (({} : Merge).recordAll calls).files, t.name = s.name → t.server = s.server)
      ∧ (∀ t ∈ calls, t.stat.isDirectory = true → t.name ≠ s.name)
      ∧ ¬ ['{', ':'] <:+: s.name.toList := by
  constructor
  · intro h
    refine ⟨h.only, fun t ht hdir hname => ?_, h.no_opener⟩
    obtain ⟨t', ht', hname'⟩ := mem_directories_recordAll.mpr ⟨t, ht, hdir, rfl⟩
    exact h.no_directory t' ht' (hname'.trans hname)
  · rintro ⟨honly, hno, hopener⟩
    refine ⟨honly, fun t ht hname => ?_, hopener⟩
    obtain ⟨t', ht', hdir, hname'⟩ := mem_directories_recordAll.mp ⟨t, ht, rfl⟩
    exact hno t' ht' hdir (hname'.trans hname)

theorem files_recordAll (calls : List Sighting) : (({} : Merge).recordAll calls).files =
    (({} : Merge).accepted calls).filter (!·.stat.isDirectory) := by
  rw [files, sightings_recordAll]
  rfl

theorem fits_recordAll (hfits : ∀ s ∈ calls, Fits s.server) :
    ∀ s ∈ (({} : Merge).recordAll calls).sightings, Fits s.server := by
  intro s hs
  rw [sightings_recordAll, List.nil_append] at hs
  exact hfits s ((accepted_sublist _ calls).subset hs)

/-- **Every file that is recorded is listed once, and its name leads back to it**, whatever is
recorded, as long as the names of the servers can stand in a tag. -/
theorem accounted_recordAll (calls : List Sighting) (hfits : ∀ s ∈ calls, Fits s.server) :
    Accounted calls (({} : Merge).recordAll calls)
      ((({} : Merge).accepted calls).filter (!·.stat.isDirectory)) := by
  have hdistinct := distinct_empty.recordAll calls
  have hservers := fits_recordAll hfits
  rw [← files_recordAll]
  refine
    { pairs := hdistinct.nodup_files
      listed := perm_files _
      apart := hdistinct.nodup_listedNames hservers
      directories := ⟨?_, fun name => ?_⟩
      keeps := fun s hs => (hdistinct.listedName_eq_iff hs).trans alone_recordAll_iff
      bare := fun s hs hname d => ?_
      tagged := fun s hs hname => ?_ }
  · exact ((perm_directories _).map _).nodup_iff.mpr (nodup_directoryEntries _)
  · rw [((perm_directories _).map _).mem_iff, mem_directoryEntries_iff, mem_directories_recordAll]
  · exact hdistinct.address_of_alone hs ((hdistinct.listedName_eq_iff hs).mp hname) d
  · have hnot := mt (hdistinct.listedName_eq_iff hs).mpr hname
    refine ⟨hdistinct.listedName_of_not_alone hs hnot, fun d => ?_⟩
    exact hdistinct.address_of_not_alone (hservers s (mem_files.mp hs).1) hs hnot d

/-- A file on two servers, one that has a directory's name, one that opens a tag, one that is alone
and one that is seen again. -/
def sampleCalls : List Sighting :=
  [⟨"x", "alpha", Peers.sampleFile⟩, ⟨"x", "beta", Peers.sampleFile⟩,
    ⟨"y", "alpha", Peers.sampleDirectory⟩, ⟨"y", "beta", Peers.sampleFile⟩,
    ⟨"a\x7b:b", "alpha", Peers.sampleFile⟩, ⟨"z", "beta", Peers.sampleFile⟩,
    ⟨"x", "alpha", { Peers.sampleFile with size := 9 }⟩]

theorem accounted_recordAll_sample :
    (∀ s ∈ sampleCalls, Fits s.server)
      ∧ Accounted sampleCalls (({} : Merge).recordAll sampleCalls)
        [⟨"x", "alpha", Peers.sampleFile⟩, ⟨"x", "beta", Peers.sampleFile⟩,
          ⟨"y", "beta", Peers.sampleFile⟩, ⟨"a\x7b:b", "alpha", Peers.sampleFile⟩,
          ⟨"z", "beta", Peers.sampleFile⟩] := by
  have halpha : Fits "alpha" := ⟨by decide, by decide⟩
  have hbeta : Fits "beta" := ⟨by decide, by decide⟩
  have hfits : ∀ s ∈ sampleCalls, Fits s.server := by simp [sampleCalls, halpha, hbeta]
  exact ⟨hfits, accounted_recordAll sampleCalls hfits⟩

example : (({} : Merge).recordAll sampleCalls).files.map
      (({} : Merge).recordAll sampleCalls).listedName =
    ["x\x7b:alpha:\x7d", "x\x7b:beta:\x7d", "y\x7b:beta:\x7d", "a\x7b:b\x7b:alpha:\x7d",
      "z"] := by
  decide

end Merge

end UnionFS
