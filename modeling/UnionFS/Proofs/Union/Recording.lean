import Mathlib.Data.List.Dedup
import Mathlib.Data.List.Induction
import UnionFS.Proofs.Union.Names

/-!
# Recording once

What a merge records is told by three things: the name, the server and whether it is a directory.  A
sighting is refused exactly if one with the same three has been accepted since the merge was last
cleared, and the merge stays as it is; any other is accepted.  So the pair of name and server alone
is recorded once as long as each server lists each name as one kind of thing, and no longer
(`recording`): a server that lists a name both as a file and as a directory gets both of them into
the listing (`not_always_once`).

The step is that a call keeps to the law of pairs exactly if it leaves every pair with one kind
(`once_iff_oneKind`).  What is counted rests on the accepted sightings having each key once that is
new (`perm_map_accepted`), whichever key tells which sightings repeat each other.
-/

namespace UnionFS

namespace Sighting

/-- The name and the server. -/
def pair (s : Sighting) : String × String := (s.name, s.server)

/-- The name, the server and the kind. -/
def key (s : Sighting) : String × String × Bool := (s.name, s.server, s.stat.isDirectory)

variable {s t : Sighting}

theorem repeats_iff_key : s.repeats t = true ↔ s.key = t.key := by
  rw [repeats_iff, key, key, Prod.mk.injEq, Prod.mk.injEq]

theorem repeats_iff_pair :
    s.repeats t = true ↔ s.pair = t.pair ∧ s.stat.isDirectory = t.stat.isDirectory := by
  rw [repeats_iff, pair, pair, Prod.mk.injEq, and_assoc]

end Sighting

namespace Merge

variable {m : Merge} {s t : Sighting} {calls : List Sighting}

/-- Each server lists each name as one kind of thing. -/
def OneKind (calls : List Sighting) : Prop :=
  ∀ s ∈ calls, ∀ t ∈ calls, s.pair = t.pair → s.stat.isDirectory = t.stat.isDirectory

theorem OneKind.of_subset {calls' : List Sighting} (h : OneKind calls) (hsub : calls' ⊆ calls) :
    OneKind calls' := by
  intro s hs t ht
  exact h s (hsub hs) t (hsub ht)

/-! ## One call -/

/-- A call is refused if its pair has been accepted before, and leaves the merge as it is; otherwise
it succeeds. -/
structure Once (calls : List Sighting) (s : Sighting) : Prop where
  refused : (∃ t ∈ ({} : Merge).accepted calls, t.pair = s.pair) →
    (({} : Merge).recordAll calls).add s = .error .alreadyExists
      ∧ (({} : Merge).recordAll calls).record s = ({} : Merge).recordAll calls
  taken : (¬ ∃ t ∈ ({} : Merge).accepted calls, t.pair = s.pair) →
    ∃ m', (({} : Merge).recordAll calls).add s = .ok m'

theorem record_of_error {code : Code} (h : m.add s = .error code) : m.record s = m := by
  rw [record, h]

/-- What is refused repeats a sighting that is there. -/
theorem add_of_repeats (h : ∃ t ∈ m.sightings, t.repeats s = true) :
    m.add s = .error .alreadyExists := by
  obtain ⟨t, ht, hrepeats⟩ := h
  rcases add_cases m s with ⟨-, hnone⟩ | ⟨hadd, -⟩
  · rw [hnone t ht] at hrepeats
    cases hrepeats
  · exact hadd

theorem add_of_not_repeats (h : ¬ ∃ t ∈ m.sightings, t.repeats s = true) :
    ∃ m', m.add s = .ok m' := by
  rcases add_cases m s with ⟨hadd, -⟩ | ⟨-, hsome⟩
  · exact ⟨_, hadd⟩
  · exact absurd hsome h

theorem sightings_recordAll_empty (calls : List Sighting) :
    (({} : Merge).recordAll calls).sightings = ({} : Merge).accepted calls := by
  rw [sightings_recordAll]
  exact List.nil_append _

theorem mem_of_mem_accepted (h : s ∈ m.accepted calls) : s ∈ calls :=
  (accepted_sublist m calls).subset h

/-- What is recorded has been called. -/
theorem mem_of_mem_recordAll (h : s ∈ (({} : Merge).recordAll calls).sightings) : s ∈ calls := by
  rw [sightings_recordAll_empty] at h
  exact mem_of_mem_accepted h

/-- **A call keeps to the law exactly if every pair is still of one kind.** -/
theorem once_iff_oneKind (hcalls : OneKind calls) : Once calls s ↔ OneKind (calls ++ [s]) := by
  have hsightings := sightings_recordAll_empty calls
  constructor
  · intro honce
    -- an earlier call of the pair, accepted or not, is of the kind of this one
    have hkind : ∀ t ∈ calls, t.pair = s.pair → t.stat.isDirectory = s.stat.isDirectory := by
      intro t ht hpair
      obtain ⟨t', ht', hrepeats⟩ := exists_repeats (m := {}) ht
      obtain ⟨hpair', -⟩ := Sighting.repeats_iff_pair.mp hrepeats
      rw [hsightings] at ht'
      obtain ⟨hadd, -⟩ := honce.refused ⟨t', ht', hpair'.trans hpair⟩
      rcases add_cases (({} : Merge).recordAll calls) s with ⟨hok, -⟩ | ⟨-, x, hx, hx'⟩
      · rw [hadd] at hok
        cases hok
      · obtain ⟨hxpair, hxkind⟩ := Sighting.repeats_iff_pair.mp hx'
        rw [← hxkind]
        exact hcalls t ht x (mem_of_mem_recordAll hx) (hpair.trans hxpair.symm)
    intro x hx y hy hpair
    rcases List.mem_append.mp hx with hx | hx
    · rcases List.mem_append.mp hy with hy | hy
      · exact hcalls x hx y hy hpair
      · rw [List.mem_singleton.mp hy] at hpair ⊢
        exact hkind x hx hpair
    · rw [List.mem_singleton.mp hx] at hpair ⊢
      rcases List.mem_append.mp hy with hy | hy
      · exact (hkind y hy hpair.symm).symm
      · rw [List.mem_singleton.mp hy]
  · intro hall
    have hrepeats : (∃ t ∈ ({} : Merge).accepted calls, t.pair = s.pair) ↔
        ∃ t ∈ (({} : Merge).recordAll calls).sightings, t.repeats s = true := by
      rw [hsightings]
      refine exists_congr fun t => and_congr_right fun ht => ?_
      have hkind := hall t (List.mem_append_left _ (mem_of_mem_accepted ht)) s (by simp)
      rw [Sighting.repeats_iff_pair]
      exact ⟨fun hpair => ⟨hpair, hkind hpair⟩, fun h => h.1⟩
    refine ⟨fun h => ?_, fun h => ?_⟩
    · have hadd := add_of_repeats (hrepeats.mp h)
      exact ⟨hadd, record_of_error hadd⟩
    · exact add_of_not_repeats fun h' => h (hrepeats.mpr h')

/-! ## Calls and clearings -/

/-- What is done with a merge: a sighting is added, or all are cleared. -/
inductive Act where
  | add (s : Sighting)
  | clear
  deriving DecidableEq, Repr

/-- The merge after some acts; a sighting that is refused leaves it as it is. -/
def after (acts : List Act) : Merge :=
  acts.foldl (fun m d => match d with
    | .add s => m.record s
    | .clear => {}) {}

/-- The calls since the merge was last cleared. -/
def callsSince (acts : List Act) : List Sighting :=
  acts.foldl (fun calls d => match d with
    | .add s => calls ++ [s]
    | .clear => []) []

variable {acts before : List Act}

theorem callsSince_add (acts : List Act) (s : Sighting) :
    callsSince (acts ++ [.add s]) = callsSince acts ++ [s] := by
  rw [callsSince, List.foldl_append]
  rfl

theorem callsSince_clear (acts : List Act) : callsSince (acts ++ [.clear]) = [] := by
  rw [callsSince, List.foldl_append]
  rfl

/-- The merge is that of the calls since it was cleared. -/
theorem after_eq (acts : List Act) : after acts = ({} : Merge).recordAll (callsSince acts) := by
  induction acts using List.reverseRecOn with
  | nil => rfl
  | append_singleton acts d ih =>
      rw [after, List.foldl_append, ← after, ih]
      cases d with
      | add s =>
          rw [callsSince_add, recordAll, recordAll, List.foldl_append]
          rfl
      | clear =>
          rw [callsSince_clear]
          rfl

/-- **The law of pairs holds throughout exactly if every pair is of one kind between clearings.** -/
theorem forall_once_iff : (∀ before s, before ++ [.add s] <+: acts → Once (callsSince before) s) ↔
    ∀ before, before <+: acts → OneKind (callsSince before) := by
  constructor
  · intro honce before hbefore
    induction before using List.reverseRecOn with
    | nil =>
        intro s hs
        cases hs
    | append_singleton before d ih =>
        have hkinds := ih ((List.prefix_append before [d]).trans hbefore)
        cases d with
        | add s =>
            rw [callsSince_add]
            exact (once_iff_oneKind hkinds).mp (honce before s hbefore)
        | clear =>
            rw [callsSince_clear]
            intro s hs
            cases hs
  · intro hkinds before s hbefore
    have hall := hkinds _ hbefore
    rw [callsSince_add] at hall
    exact (once_iff_oneKind (hall.of_subset (List.subset_append_left _ _))).mpr hall

/-! ## Counting -/

/-- Of the keys of the calls those that are new, each once. -/
def newKeys {κ : Type} [DecidableEq κ] (key : Sighting → κ) (m : Merge) (calls : List Sighting) :
    List κ :=
  (calls.map key).dedup.filter (· ∉ m.sightings.map key)

/-- **What is accepted has each new key once**, for a key that tells which sightings repeat each
other. -/
theorem perm_map_accepted {κ : Type} [DecidableEq κ] {key : Sighting → κ} (hm : m.Distinct)
    (hkey : ∀ s ∈ m.sightings ++ calls, ∀ t ∈ m.sightings ++ calls,
      s.repeats t = true ↔ key s = key t) :
    ((m.accepted calls).map key).Perm (newKeys key m calls) := by
  have hdistinct := hm.recordAll calls
  rw [Distinct, sightings_recordAll, List.pairwise_append] at hdistinct
  obtain ⟨-, hapart, hnew⟩ := hdistinct
  have hleft {s : Sighting} (hs : s ∈ m.sightings) : s ∈ m.sightings ++ calls :=
    List.mem_append_left _ hs
  have hright {s : Sighting} (hs : s ∈ m.accepted calls) : s ∈ m.sightings ++ calls :=
    List.mem_append_right _ (mem_of_mem_accepted hs)
  have hnodup : (newKeys key m calls).Nodup := (List.nodup_dedup _).filter _
  refine (List.perm_ext_iff_of_nodup ?_ hnodup).mpr fun k => ?_
  · refine List.pairwise_map.mpr (List.Pairwise.imp_of_mem ?_ hapart)
    intro s t hs ht hrepeats heq
    rw [(hkey s (hright hs) t (hright ht)).mpr heq] at hrepeats
    cases hrepeats
  · rw [newKeys, List.mem_filter, List.mem_dedup, decide_eq_true_eq, List.mem_map, List.mem_map,
      List.mem_map]
    constructor
    · intro h
      obtain ⟨s, hs, rfl⟩ := h
      refine ⟨⟨s, mem_of_mem_accepted hs, rfl⟩, fun hold => ?_⟩
      obtain ⟨t, ht, heq⟩ := hold
      have hfalse := hnew t ht s hs
      rw [(hkey t (hleft ht) s (hright hs)).mpr heq] at hfalse
      cases hfalse
    · intro h
      obtain ⟨⟨s, hs, rfl⟩, hfresh⟩ := h
      -- what was accepted in its place was not there before
      obtain ⟨t, ht, hrepeats⟩ := exists_repeats (m := m) hs
      rw [sightings_recordAll] at ht
      rcases List.mem_append.mp ht with ht | ht
      · exact absurd ⟨t, ht, (hkey t (hleft ht) s (List.mem_append_right _ hs)).mp hrepeats⟩ hfresh
      · exact ⟨t, ht, (hkey t (hright ht) s (List.mem_append_right _ hs)).mp hrepeats⟩

/-- Each entry of a listing is either refused or accepted. -/
theorem skipped_add_length_accepted (m : Merge) (server : String) (entries : List Entry) :
    (m.addEntries server entries).2 + (m.accepted (sightingsOf server entries)).length =
      entries.length := by
  induction entries generalizing m with
  | nil => rfl
  | cons e rest ih =>
      rw [addEntries, sightingsOf, List.map_cons, ← sightingsOf, accepted]
      cases m.add ⟨e.name, server, e.stat⟩ with
      | ok m' =>
          have := ih m'
          simp only [List.length_cons]
          omega
      | error code =>
          have := ih m
          simp only [List.length_cons]
          omega

theorem skipped_add_length_newKeys {κ : Type} [DecidableEq κ] {key : Sighting → κ} (hm : m.Distinct)
    {server : String} {entries : List Entry}
    (hkey : ∀ s ∈ m.sightings ++ sightingsOf server entries,
      ∀ t ∈ m.sightings ++ sightingsOf server entries, s.repeats t = true ↔ key s = key t) :
    (m.addEntries server entries).2 + (newKeys key m (sightingsOf server entries)).length =
      entries.length := by
  rw [← (perm_map_accepted hm hkey).length_eq, List.length_map]
  exact skipped_add_length_accepted m server entries

/-- Of the names in a listing those that the server has not listed yet, each once. -/
def newNames (m : Merge) (server : String) (entries : List Entry) : List String :=
  (entries.map (·.name)).dedup.filter fun name => (name, server) ∉ m.sightings.map Sighting.pair

theorem newKeys_pair (m : Merge) (server : String) (entries : List Entry) :
    newKeys Sighting.pair m (sightingsOf server entries) =
      (newNames m server entries).map (·, server) := by
  have hinjective : Function.Injective (fun name : String => (name, server)) := by
    intro name name' h
    exact (Prod.mk.inj h).1
  have hpairs : (sightingsOf server entries).map Sighting.pair =
      (entries.map (·.name)).map (·, server) := by
    rw [sightingsOf, List.map_map, List.map_map]
    rfl
  rw [newKeys, hpairs, List.dedup_map_of_injective hinjective, List.filter_map, newNames]
  refine congrArg _ (List.filter_congr fun name _ => ?_)
  simp only [Function.comp_apply, decide_eq_decide]

/-! ## Entries of a listing -/

/-- The entry of a listing that a recorded sighting comes to: a file's own, and of a directory the
one of its name. -/
inductive Shows (m : Merge) (s : Sighting) : Entry → Prop where
  | file : s.stat.isDirectory = false → Shows m s ⟨m.listedName s, s.stat⟩
  | directory {e : Entry} : s.stat.isDirectory = true → e ∈ m.directoryEntries → e.name = s.name →
    Shows m s e

theorem Shows.isDirectory_eq {e : Entry} (h : m.Shows s e) :
    e.stat.isDirectory = s.stat.isDirectory := by
  cases h with
  | file => rfl
  | directory hdir he => rw [hdir, isDirectory_of_mem_directoryEntries he]

theorem exists_shows (hs : s ∈ m.sightings) : ∃ e ∈ m.listing, m.Shows s e := by
  cases hdir : s.stat.isDirectory with
  | false =>
      have hfile := mem_files.mpr ⟨hs, hdir⟩
      exact ⟨_, mem_listing.mpr (.inr ⟨s, hfile, rfl⟩), .file hdir⟩
  | true =>
      have hname := mem_directoryEntries_iff.mpr ⟨s, mem_directories.mpr ⟨hs, hdir⟩, rfl⟩
      obtain ⟨e, he, hename⟩ := List.mem_map.mp hname
      exact ⟨e, mem_listing.mpr (.inl he), .directory hdir he hename⟩

/-- A sighting comes to one entry. -/
theorem Shows.unique {e e' : Entry} (h : m.Shows s e) (h' : m.Shows s e') : e = e' := by
  cases h with
  | file hfile =>
      cases h' with
      | file => rfl
      | directory hdir =>
          rw [hfile] at hdir
          cases hdir
  | directory hdir he hname =>
      cases h' with
      | file hfile =>
          rw [hfile] at hdir
          cases hdir
      | directory _ he' hname' =>
          exact List.inj_on_of_nodup_map m.nodup_directoryEntries he he' (hname.trans hname'.symm)

/-- For each of its names a server has at most one entry in the listing. -/
def ListsOnce (m : Merge) : Prop :=
  ∀ s ∈ m.sightings, ∀ t ∈ m.sightings, s.pair = t.pair →
    ∀ e e', m.Shows s e → m.Shows t e' → e = e'

/-- Recorded sightings are told by their keys. -/
theorem Distinct.eq_of_repeats (h : m.Distinct) (hs : s ∈ m.sightings) (ht : t ∈ m.sightings)
    (hrepeats : s.repeats t = true) : s = t := by
  have hnodup : (m.sightings.map Sighting.key).Nodup := by
    refine List.pairwise_map.mpr (h.imp fun hfalse heq => ?_)
    rw [Sighting.repeats_iff_key.mpr heq] at hfalse
    cases hfalse
  exact List.inj_on_of_nodup_map hnodup hs ht (Sighting.repeats_iff_key.mp hrepeats)

theorem listsOnce_recordAll_iff : (({} : Merge).recordAll calls).ListsOnce ↔ OneKind calls := by
  constructor
  · intro honce s hs t ht hpair
    obtain ⟨s', hs', hs''⟩ := exists_repeats (m := {}) hs
    obtain ⟨t', ht', ht''⟩ := exists_repeats (m := {}) ht
    obtain ⟨hspair, hskind⟩ := Sighting.repeats_iff_pair.mp hs''
    obtain ⟨htpair, htkind⟩ := Sighting.repeats_iff_pair.mp ht''
    obtain ⟨e, -, he⟩ := exists_shows hs'
    obtain ⟨e', -, he'⟩ := exists_shows ht'
    have heq := honce s' hs' t' ht' (hspair.trans (hpair.trans htpair.symm)) e e' he he'
    rw [← hskind, ← htkind, ← he.isDirectory_eq, ← he'.isDirectory_eq, heq]
  · intro hkinds s hs t ht hpair e e' he he'
    -- of a pair and a kind there is one recorded sighting
    have hkind := hkinds s (mem_of_mem_recordAll hs) t (mem_of_mem_recordAll ht) hpair
    have hst := (distinct_empty.recordAll calls).eq_of_repeats hs ht
      (Sighting.repeats_iff_pair.mpr ⟨hpair, hkind⟩)
    rw [← hst] at he'
    exact he.unique he'

/-! ## The law -/

/-- What a merge records over some acts. -/
structure Recording (acts : List Act) : Prop where
  /-- A call is refused exactly if one of the same name, server and kind has been accepted since the
  merge was cleared; it then leaves the merge as it is. -/
  refused : ∀ s, (∃ t ∈ ({} : Merge).accepted (callsSince acts), t.key = s.key) →
    (after acts).add s = .error .alreadyExists ∧ after (acts ++ [.add s]) = after acts
  taken : ∀ s, (¬ ∃ t ∈ ({} : Merge).accepted (callsSince acts), t.key = s.key) →
    ∃ m', (after acts).add s = .ok m' ∧ after (acts ++ [.add s]) = m'
  /-- Name and server alone decide this, throughout, exactly if between clearings each server lists
  each name as one kind of thing. -/
  once : (∀ before s, before ++ [.add s] <+: acts → Once (callsSince before) s) ↔
    ∀ before, before <+: acts → OneKind (callsSince before)
  /-- Of a listing as many entries are refused as there are beyond the distinct ones that are new. -/
  counted : ∀ server entries, ((after acts).addEntries server entries).2
    + (newKeys Sighting.key (after acts) (sightingsOf server entries)).length = entries.length
  /-- And with each name of one kind these are the distinct new names. -/
  counted_names : ∀ server entries, OneKind (callsSince acts ++ sightingsOf server entries) →
    ((after acts).addEntries server entries).2
      + (newNames (after acts) server entries).length = entries.length
  /-- No server has two entries for one name in the listing exactly if each server lists each name as
  one kind of thing. -/
  lists_once : (after acts).ListsOnce ↔ OneKind (callsSince acts)

/-- **A name of a server is recorded once for each kind of thing that it is listed as.** -/
theorem recording (acts : List Act) : Recording acts := by
  have hafter := after_eq acts
  have hdistinct : (after acts).Distinct := by
    rw [hafter]
    exact distinct_empty.recordAll _
  have hrecord (s : Sighting) : after (acts ++ [.add s]) = (after acts).record s := by
    rw [after, List.foldl_append]
    rfl
  have hsightings : (after acts).sightings = ({} : Merge).accepted (callsSince acts) := by
    rw [hafter, sightings_recordAll_empty]
  have hrepeats (s : Sighting) : (∃ t ∈ ({} : Merge).accepted (callsSince acts), t.key = s.key) ↔
      ∃ t ∈ (after acts).sightings, t.repeats s = true := by
    rw [hsightings]
    exact exists_congr fun t => and_congr_right fun _ => Sighting.repeats_iff_key.symm
  refine
    { refused := fun s h => ?_
      taken := fun s h => ?_
      once := forall_once_iff
      counted := fun server entries => ?_
      counted_names := fun server entries h => ?_
      lists_once := ?_ }
  · have hadd := add_of_repeats ((hrepeats s).mp h)
    exact ⟨hadd, (hrecord s).trans (record_of_error hadd)⟩
  · obtain ⟨m', hadd⟩ := add_of_not_repeats fun h' => h ((hrepeats s).mpr h')
    refine ⟨m', hadd, ?_⟩
    rw [hrecord, record, hadd]
  · exact skipped_add_length_newKeys hdistinct fun s _ t _ => Sighting.repeats_iff_key
  · have hlength := congrArg List.length (newKeys_pair (after acts) server entries)
    rw [List.length_map] at hlength
    rw [← hlength]
    refine skipped_add_length_newKeys hdistinct fun s hs t ht => ?_
    -- what is recorded is among the calls
    have hmem {x : Sighting} (hx : x ∈ (after acts).sightings ++ sightingsOf server entries) :
        x ∈ callsSince acts ++ sightingsOf server entries := by
      rw [hsightings] at hx
      rcases List.mem_append.mp hx with hx | hx
      · exact List.mem_append_left _ (mem_of_mem_accepted hx)
      · exact List.mem_append_right _ hx
    rw [Sighting.repeats_iff_pair]
    exact ⟨fun hboth => hboth.1, fun hpair => ⟨hpair, h s (hmem hs) t (hmem ht) hpair⟩⟩
  · rw [hafter]
    exact listsOnce_recordAll_iff

/-- A server lists a name as a file and as a directory. -/
def sampleTwofold : List Act :=
  [.add ⟨"x", "alpha", Peers.sampleFile⟩, .add ⟨"x", "alpha", Peers.sampleDirectory⟩]

/-- **A pair is not always recorded once**: of a name that a server lists as a file and as a directory
both are accepted. -/
theorem not_always_once :
    ¬ ∀ (acts before : List Act) (s : Sighting), before ++ [.add s] <+: acts →
      Once (callsSince before) s := by
  intro hall
  have hkinds := forall_once_iff.mp (hall sampleTwofold) _ List.prefix_rfl
  have hkind := hkinds ⟨"x", "alpha", Peers.sampleFile⟩ (by decide)
    ⟨"x", "alpha", Peers.sampleDirectory⟩ (by decide) rfl
  exact absurd hkind (by decide)

end Merge
end UnionFS
