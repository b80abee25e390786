import UnionFS.Proofs.Session.Dates
import UnionFS.Proofs.Session.Departure

/-!
# What becomes of the tree

By the end of a session the tree has changed by the writes that were complete in time, and by
nothing else (`changes_toEnd`).  What a write changes is said file by file (`Overlaid`): the data lie
over the content of one file, and whatever else there is, is as it was.  The machine changes dates
besides, and a client that goes away for good may take the last of its writes with it.
-/

namespace UnionFS

open Dialogue Wire Session

/-- The second tree has `data` laid over the file at `q`, and is the first one otherwise. -/
structure Tree.Overlaid (t : Tree) (q : Path) (offset : Nat) (data : Bytes) (t' : Tree) : Prop where
  file : ∀ n old, t.lookup q = some n → n.content = .file old →
    t'.lookup q = some { n with content := .file (old.overlay offset data) }
  /-- There is nothing to write to in what is no file. -/
  noFile : ∀ n, t.lookup q = some n → (∀ old, n.content ≠ .file old) → t'.lookup q = some n
  others : ∀ p, p ≠ q → t'.lookup p = t.lookup p
  privileged : t'.privileged = t.privileged

theorem Tree.overlaid_modify (t : Tree) (q : Path) (offset : Nat) (data : Bytes) :
    t.Overlaid q offset data (t.modify q (·.overlay offset data)) where
  file n old hn hcontent := by
    rw [lookup_modify, if_pos rfl, hn, Option.map_some, Node.overlay, hcontent]
  noFile n hn hcontent := by
    rw [lookup_modify, if_pos rfl, hn, Option.map_some, Node.overlay]
    split
    · next old hold => exact absurd hold (hcontent old)
    · rfl
  others p hp := by rw [lookup_modify, if_neg hp]
  privileged := rfl

namespace Export

variable {e : Export} {t t' : Tree} {writes : List Request}

/-- The second tree is the first after these writes, one after another.  The file system refuses
those that lie beyond the reach of any file. -/
inductive Applies (e : Export) : Tree → List Request → Tree → Prop where
  | nil (t : Tree) : Applies e t [] t
  | beyond {t t' : Tree} {path : String} {data : Bytes} {offset : UInt64} {q : Path}
    {writes : List Request} :
    e.openForWrite t path (UInt64.ofNat data.length) = .ok q → 2 ^ 63 ≤ offset.toNat →
    Applies e t writes t' → Applies e t (.write path data offset :: writes) t'
  | written {t s t' : Tree} {path : String} {data : Bytes} {offset : UInt64} {q : Path}
    {writes : List Request} :
    e.openForWrite t path (UInt64.ofNat data.length) = .ok q → offset.toNat < 2 ^ 63 →
    (t.WellFormed → ∃ n old, t.lookup q = some n ∧ n.content = .file old) →
    t.Overlaid q offset.toNat data s → Applies e s writes t' →
    Applies e t (.write path data offset :: writes) t'

/-- What is opened for writing is a file. -/
theorem file_of_openForWrite {path : String} {size : UInt64} {q : Path}
    (hopen : e.openForWrite t path size = .ok q) (ht : t.WellFormed) :
    ∃ n old, t.lookup q = some n ∧ n.content = .file old := by
  obtain ⟨-, n, hopens, hdir⟩ := openForWrite_eq_ok.mp hopen
  obtain ⟨m, hm, hlink⟩ := ((e.confinement t).canonical ht path q hopens.confined).standing
  obtain rfl := Option.some.inj (hopens.found.symm.trans hm)
  cases hcontent : n.content with
  | file old => exact ⟨n, old, hopens.found, hcontent⟩
  | directory =>
      rw [Node.isDirectory, hcontent] at hdir
      cases hdir
  | link target => exact absurd hcontent (hlink target)

/-- What a whole write writes to is opened. -/
theorem Completes.opens {heard : Bytes} {r : Request} (h : e.Completes t heard r) :
    ∃ path data offset q, r = .write path data offset ∧
      e.openForWrite t path (UInt64.ofNat data.length) = .ok q := by
  cases h with
  | @write path size offset q data _ hopen hdata =>
      rw [← UInt64.ofNat_toNat (x := size), ← hdata] at hopen
      exact ⟨path, data, offset, q, rfl, hopen⟩

/-- **Writes that are carried out are applied.**  All of them could be opened at first, which none of
them changes. -/
theorem applies_carryOut (t : Tree)
    (h : ∀ r ∈ writes, ∃ path data offset q, r = .write path data offset ∧
      e.openForWrite t path (UInt64.ofNat data.length) = .ok q) :
    e.Applies t writes (e.carryOut t writes) := by
  induction writes generalizing t with
  | nil => exact .nil t
  | cons r writes ih =>
      obtain ⟨path, data, offset, q, rfl, hopen⟩ := h r (.head _)
      have hsame := e.sameOutline_perform t (.write path data offset)
      have hrest : ∀ r ∈ writes, ∃ path' data' offset' q', r = .write path' data' offset' ∧
          e.openForWrite (e.perform t (.write path data offset)).2 path'
            (UInt64.ofNat data'.length) = .ok q' := by
        intro r hr
        obtain ⟨path', data', offset', q', rfl, hopen'⟩ := h r (.tail _ hr)
        exact ⟨path', data', offset', q', rfl, openForWrite_of_sameOutline hsame hopen'⟩
      have happlies := ih _ hrest
      have hperform : (e.perform t (.write path data offset)).2 = (writeAt q offset data t).2 := by
        rw [perform, write, hopen]
      rw [hperform] at happlies
      show e.Applies t _ (e.carryOut (e.perform t (.write path data offset)).2 writes)
      rw [hperform]
      by_cases hfar : offsetLimit ≤ offset.toNat
      · rw [writeAt, if_pos hfar] at happlies ⊢
        exact .beyond hopen hfar happlies
      · have hoverlaid := t.overlaid_modify q offset.toNat data
        rw [writeAt, if_neg hfar] at happlies ⊢
        exact .written hopen (Nat.not_le.mp hfar) (file_of_openForWrite hopen) hoverlaid happlies

end Export

namespace Course

/-- What a client has changed by the end of its session. -/
structure Changes (c : Course) (g : Gate) (t : Tree) (start : Stamp) (arrivals : List Arrival) :
    Prop where
  closed : c.session.stage = .closed
  /-- Only the data of files have changed. -/
  outline : t.SameOutline c.tree
  barred : (∀ e i rest, ¬ g.Admits t start arrivals e i rest) → c.tree = t
  rounds : ∀ e i rest, g.Admits t start arrivals e i rest →
    ∃ rounds, i.Whole g.config e rest rounds
  /-- The rounds that are whole writes have been carried out, in their order. -/
  writes : ∀ e i rest rounds, g.Admits t start arrivals e i rest →
    i.Whole g.config e rest rounds →
      c.tree = e.carryOut t (rounds.flatMap (·.writes)) ∧
        e.Applies t (rounds.flatMap (·.writes)) c.tree ∧
        ∀ round ∈ rounds, round.writes.length ≤ 1 ∧
          ∀ r, r ∈ round.writes ↔ e.Completes t (bytesOf round.heard) r

theorem applies_whole {e : Export} {i : Interval} {config : ServerConfig} {arrivals : List Arrival}
    {rounds : List Round} (h : i.Whole config e arrivals rounds) :
    e.Applies i.tree (rounds.flatMap (·.writes))
      (e.carryOut i.tree (rounds.flatMap (·.writes))) := by
  refine Export.applies_carryOut i.tree fun r hr => ?_
  obtain ⟨round, hround, hmem⟩ := List.mem_flatMap.mp hr
  exact (((h.writes hround).2 r).mp hmem).opens

/-- What a client changes whose line stays whole, on a tree where no dates change. -/
theorem changes_follow (g : Gate) (t : Tree) (now : Nat) (schedule : Schedule) :
    ((Course.start g t now).follow schedule).toEnd.Changes g t ⟨now, 0⟩
      (schedule.arrivals ⟨now, 0⟩) := by
  obtain ⟨hfinal, hclosed⟩ := final_toEnd g t now schedule
  generalize ((Course.start g t now).follow schedule).toEnd = c at hfinal hclosed
  generalize htree : c.tree = tree, c.sent = sent at hfinal
  cases hfinal with
  | denied hnone =>
      constructor
      case closed => exact hclosed
      case outline =>
          rw [htree]
          exact .refl t
      case barred => exact fun _ => htree
      case rounds =>
          intro e i rest hadmits
          exact absurd hadmits (hnone e i rest)
      case writes =>
          intro e i rest rounds hadmits
          exact absurd hadmits (hnone e i rest)
  | @served e _ _ rounds _ hadmits hwhole =>
      constructor
      case closed => exact hclosed
      case outline =>
          rw [htree]
          exact e.sameOutline_carryOut t _
      case barred =>
          intro hnone
          exact absurd hadmits (hnone _ _ _)
      case rounds =>
          intro e' i' rest' hadmits'
          obtain ⟨rfl, rfl, rfl⟩ := hadmits.unique hadmits'
          exact ⟨rounds, hwhole⟩
      case writes =>
          intro e' i' rest' rounds' hadmits' hwhole'
          -- the arrivals determine both, so that these are the ones that were served
          obtain ⟨rfl, rfl, rfl⟩ := hadmits.unique hadmits'
          obtain rfl := hwhole.unique hwhole'
          have happlies := applies_whole hwhole
          rw [hadmits.tree] at happlies
          refine ⟨htree, htree ▸ happlies, fun round hround => ?_⟩
          rw [← hadmits.tree]
          exact hwhole.writes hround

/-- A write whose last byte comes after a pause. -/
def sampleWrite (pause : Nat) : Schedule := [
  ⟨.send (ofKey "key" ++ ofCommand .write ++ ofText "/f" ++ ofSize 2 ++ ofSize 1 ++ [8]), pause⟩,
  ⟨.send [9], 0⟩]

set_option maxRecDepth 10000 in
/-- The last byte is in time, or a millisecond too late. -/
example :
    let tree (pause : Nat) :=
      ((Course.start sampleGate (sampleFile [1, 2, 3]) 0).follow (sampleWrite pause)).toEnd.tree
    tree 9999 = sampleFile [1, 8, 9] ∧ tree 10000 = sampleFile [1, 2, 3] := by
  constructor <;> cbv

end Course
end UnionFS
