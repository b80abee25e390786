import UnionFS.Proofs.Export.Confinement
import UnionFS.Proofs.Tree.Dates

/-!
# Dates in replies

Of all answers only those to a question for an object's state and to a listing show dates, and
nothing else in an answer depends on them.  So a server answers on a tree with blank dates what it
answers on the tree itself, with the dates blank (`answers_undated`).
-/

namespace UnionFS.Export

open Dialogue Wire

variable {e : Export} {t t' : Tree} {path : String}

/-- The second answer is the first one with the dates blank. -/
inductive Blanked : Bytes → Bytes → Prop where
  | same (b : Bytes) : Blanked b b
  | stat (s : Stat) : Blanked (replyStat (.ok s)) (replyStat (.ok s.undated))
  | entries (xs : List Entry) :
    Blanked (replyEntries (.ok xs)) (replyEntries (.ok (xs.map Entry.undated)))

theorem Blanked.eq_nil {b blank : Bytes} (h : Blanked b blank) (hblank : blank = []) : b = [] := by
  cases h with
  | same => exact hblank
  | stat => cases hblank
  | entries => cases hblank

/-- Where nothing is said with blank dates, nothing is said. -/
theorem eq_nil_of_said {b blank : Bytes} (h : Said Blanked b blank) (hblank : blank = []) :
    b = [] := by
  induction h with
  | nil => rfl
  | piece hpiece _ ih =>
      obtain ⟨hfirst, hrest⟩ := List.append_eq_nil_iff.mp hblank
      rw [hpiece.eq_nil hfirst, ih hrest]
      rfl

/-- Sent bytes that are the same once the dates in answers are blank. -/
def SameButDates (b b' : Bytes) : Prop :=
  ∃ blank, Said Blanked b blank ∧ Said Blanked b' blank

/-! ## What is asked of a tree with blank dates -/

theorem confine_undated : e.confine t.undated path = e.confine t path :=
  (confine_congr (t.sameOutline_mark _) path).symm

theorem resolve_undated : e.resolve t.undated path =
    (e.resolve t path).map fun found => (found.1, found.2.undated) := by
  rw [resolve, resolve, confine_undated]
  cases e.confine t path with
  | error c => rfl
  | ok q =>
      dsimp only [bind, Except.bind]
      rw [Tree.lookup_undated]
      cases t.lookup q <;> rfl

theorem grants_undated (n : Node) (mask : UInt32) :
    t.undated.grants n.undated mask = t.grants n mask := rfl

theorem granted_undated (n : Node) (mask : UInt32) :
    granted t.undated n.undated mask = granted t n mask := rfl

theorem authorize_undated (n : Node) (mask : UInt32) :
    e.authorize n.undated mask = e.authorize n mask := rfl

theorem isDirectory_undated (n : Node) : n.undated.isDirectory = n.isDirectory := rfl

theorem within_undated (q : Path) :
    within t.undated q = (within t q).map fun x => (x.1, x.2.undated) := by
  rw [within, within, Tree.children_undated, List.filter_map]
  rfl

theorem entry_undated (name : Name) (n : Node) :
    entry? name n.undated = ( entry? name n).map Entry.undated := by
  rw [ entry?, entry?, Option.map_map]
  rfl

theorem getattr_undated : e.getattr t.undated path = (e.getattr t path).map Stat.undated := by
  rw [getattr, getattr, resolve_undated]
  cases e.resolve t path <;> rfl

/-- A listing with blank dates is in the same order. -/
theorem sorted_undated (seen : List (Name × Node)) :
    (((seen.map fun x => (x.1, x.2.undated)).filterMap fun x => entry? x.1 x.2).mergeSort
        fun a b => a.name ≤ b.name) =
      (((seen.filterMap fun x => entry? x.1 x.2).mergeSort fun a b => a.name ≤ b.name).map
        Entry.undated) := by
  have hsort (xs : List Entry) : (xs.map Entry.undated).mergeSort (fun a b => a.name ≤ b.name) =
      (xs.mergeSort fun a b => a.name ≤ b.name).map Entry.undated := by
    symm
    apply List.map_mergeSort
    exact fun _ _ _ _ => rfl
  rw [← hsort, List.filterMap_map, List.map_filterMap]
  refine congrArg (fun f => (seen.filterMap f).mergeSort _) (funext fun x => ?_)
  exact entry_undated x.1 x.2

theorem readdir_undated :
    e.readdir t.undated path = (e.readdir t path).map (·.map Entry.undated) := by
  rw [readdir, readdir, resolve_undated]
  cases e.resolve t path with
  | error c => rfl
  | ok found =>
      obtain ⟨q, n⟩ := found
      have hseen : (if t.undated.grants n.undated Access.execute then within t.undated q else []) =
          (if t.grants n Access.execute then within t q else []).map fun x =>
            (x.1, x.2.undated) := by
        rw [grants_undated, within_undated]
        split <;> rfl
      dsimp only [Except.map, bind, Except.bind]
      rw [hseen, sorted_undated, authorize_undated, granted_undated, isDirectory_undated]
      cases n.isDirectory with
      | false => rfl
      | true =>
          cases e.authorize n Access.read with
          | error c => rfl
          | ok =>
              cases granted t n Access.read with
              | error c => rfl
              | ok => rfl

theorem access_undated (mask : UInt32) : e.access t.undated path mask = e.access t path mask := by
  rw [access, access, resolve_undated]
  cases e.resolve t path <;> rfl

theorem read_undated (size offset : UInt64) :
    e.read t.undated path size offset = e.read t path size offset := by
  rw [read, read, resolve_undated]
  cases e.resolve t path <;> rfl

theorem openForWrite_undated (size : UInt64) :
    e.openForWrite t.undated path size = e.openForWrite t path size := by
  rw [openForWrite, openForWrite, resolve_undated]
  cases e.resolve t path <;> rfl

theorem openFile_undated (flags : UInt32) :
    e.openFile t.undated path flags = e.openFile t path flags := by
  rw [openFile, openFile, resolve_undated]
  cases e.resolve t path <;> rfl

theorem writeAt_undated (q : Path) (offset : UInt64) (data : Bytes) :
    writeAt q offset data t.undated =
      ((writeAt q offset data t).1, (writeAt q offset data t).2.undated) := by
  rw [writeAt, writeAt]
  split
  · rfl
  · rw [Tree.undated_modify]

theorem blanked_replyStat (o : Outcome Stat) :
    Blanked (replyStat o) (replyStat (o.map Stat.undated)) := by
  cases o with
  | ok s => exact .stat s
  | error c => exact .same _

theorem blanked_replyEntries (o : Outcome (List Entry)) :
    Blanked (replyEntries o) (replyEntries (o.map (·.map Entry.undated))) := by
  cases o with
  | ok xs => exact .entries xs
  | error c => exact .same _

/-- **Dates show in the answers that show them, and make no difference otherwise.** -/
theorem answers_undated (e : Export) : e.Answers Blanked fun t t' => t' = t.undated where
  same := .same
  getattr t _ h path := by
    rw [h, getattr_undated]
    exact blanked_replyStat _
  readdir t _ h path := by
    rw [h, readdir_undated]
    exact blanked_replyEntries _
  access t _ h path mask := by rw [h, access_undated]
  read t _ h path size offset := by rw [h, read_undated]
  openFile t _ h path flags := by rw [h, openFile_undated]
  openForWrite t _ h path size := by rw [h, openForWrite_undated]
  writeAt t _ h q offset data := by
    rw [h, writeAt_undated]
    exact ⟨rfl, rfl⟩

end UnionFS.Export
