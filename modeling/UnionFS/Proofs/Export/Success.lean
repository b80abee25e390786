import UnionFS.Export.Basic

/-!
# What a success says

Each operation of an export makes sure of several things, one after another, before it gives its
value.  Here is one statement for each operation with all that a success of it says: the limits, the
object that the path led to, what it is, and who granted what.  Whoever needs one of these facts
takes it from here, and no other proof looks into an operation.
-/

namespace UnionFS

section

variable {α β : Type}

theorem bind_eq_ok {o : Outcome α} {f : α → Outcome β} {b : β} :
    o >>= f = .ok b ↔ ∃ a, o = .ok a ∧ f a = .ok b := by
  constructor
  · intro h
    cases o with
    | ok a => exact ⟨a, rfl, h⟩
    | error c => cases h
  · rintro ⟨a, rfl, h⟩
    exact h

theorem guard_eq_ok {p : Prop} [Decidable p] {c : Code} {f : α → Outcome β} {o : Outcome β}
    {b : β} : (if p then Except.error c >>= f else o) = .ok b ↔ ¬ p ∧ o = .ok b := by
  split
  · next hp =>
    constructor
    · intro h
      cases h
    · intro h
      exact absurd hp h.1
  · next hp => exact (and_iff_right hp).symm

theorem ite_eq_ok {p : Prop} [Decidable p] {c : Code} {a b : α} :
    (if p then Except.ok a else Except.error c) = .ok b ↔ p ∧ a = b := by
  split
  · next hp => rw [Except.ok.injEq, and_iff_right hp]
  · next hp =>
    constructor
    · intro h
      cases h
    · intro h
      exact absurd h.1 hp

end

namespace Export

variable {e : Export} {t : Tree} {path : String}

theorem resolve_eq_ok {q : Path} {n : Node} :
    e.resolve t path = .ok (q, n) ↔ e.confine t path = .ok q ∧ t.lookup q = some n := by
  rw [resolve, bind_eq_ok]
  constructor
  · rintro ⟨q', hq, h⟩
    split at h
    · next hl => cases h; exact ⟨hq, hl⟩
    · cases h
  · rintro ⟨hq, hl⟩
    exact ⟨q, hq, by rw [hl]; rfl⟩

theorem authorize_eq_ok {n : Node} {mask : UInt32} :
    e.authorize n mask = .ok () ↔ e.user.permits n.mode n.owner n.group mask = true := by
  unfold authorize
  rw [ite_eq_ok]
  exact and_iff_left rfl

theorem granted_eq_ok {n : Node} {mask : UInt32} :
    granted t n mask = .ok () ↔ t.grants n mask = true := by
  unfold granted
  rw [ite_eq_ok]
  exact and_iff_left rfl

/-- An object that a path within the export leads to, with what the account and the process are
granted on it. -/
structure Opens (e : Export) (t : Tree) (path : String) (mask : UInt32) (q : Path) (n : Node) :
    Prop where
  confined : e.confine t path = .ok q
  found : t.lookup q = some n
  permitted : e.user.permits n.mode n.owner n.group mask = true
  granted : t.grants n mask = true

theorem getattr_eq_ok {stat : Stat} :
    e.getattr t path = .ok stat ↔
      ∃ q n, e.confine t path = .ok q ∧ t.lookup q = some n ∧ stat = n.stat := by
  rw [getattr, bind_eq_ok]
  constructor
  · rintro ⟨⟨q, n⟩, hq, h⟩
    cases h
    exact ⟨q, n, (resolve_eq_ok.mp hq).1, (resolve_eq_ok.mp hq).2, rfl⟩
  · rintro ⟨q, n, hq, hl, rfl⟩
    exact ⟨(q, n), resolve_eq_ok.mpr ⟨hq, hl⟩, rfl⟩

theorem access_eq_ok {mask : UInt32} :
    e.access t path mask = .ok () ↔
      ∃ q n, e.confine t path = .ok q ∧ t.lookup q = some n
        ∧ e.user.permits n.mode n.owner n.group mask = true := by
  rw [access, bind_eq_ok]
  constructor
  · rintro ⟨⟨q, n⟩, hq, h⟩
    exact ⟨q, n, (resolve_eq_ok.mp hq).1, (resolve_eq_ok.mp hq).2, authorize_eq_ok.mp h⟩
  · rintro ⟨q, n, hq, hl, h⟩
    exact ⟨(q, n), resolve_eq_ok.mpr ⟨hq, hl⟩, authorize_eq_ok.mpr h⟩

theorem readdir_eq_ok {entries : List Entry} :
    e.readdir t path = .ok entries ↔
      ∃ q n, e.Opens t path Access.read q n ∧ n.isDirectory = true ∧ entries =
        ((if t.grants n Access.execute then within t q else []).filterMap
          fun child => entry? child.1 child.2).mergeSort fun a b => a.name ≤ b.name := by
  simp only [readdir, bind_eq_ok, guard_eq_ok, Bool.not_eq_true', Bool.not_eq_false]
  constructor
  · rintro ⟨⟨q, n⟩, hq, hd, ⟨⟩, ha, ⟨⟩, hg, h⟩
    cases h
    obtain ⟨hq, hl⟩ := resolve_eq_ok.mp hq
    exact ⟨q, n, ⟨hq, hl, authorize_eq_ok.mp ha, granted_eq_ok.mp hg⟩, hd, rfl⟩
  · rintro ⟨q, n, ⟨hq, hl, ha, hg⟩, hd, rfl⟩
    exact ⟨(q, n), resolve_eq_ok.mpr ⟨hq, hl⟩, hd, (), authorize_eq_ok.mpr ha, (),
      granted_eq_ok.mpr hg, rfl⟩

theorem read_eq_ok {size offset : UInt64} {data : Bytes} :
    e.read t path size offset = .ok data ↔
      size ≤ e.maxIo ∧ offset.toNat < offsetLimit
        ∧ ∃ q n, e.Opens t path Access.read q n ∧ n.isDirectory = false
          ∧ data = n.data.slice offset.toNat size.toNat := by
  simp only [read, bind_eq_ok, guard_eq_ok, Bool.not_eq_true, UInt64.not_lt, Nat.not_le]
  constructor
  · rintro ⟨hs, ⟨q, n⟩, hq, hd, ⟨⟩, ha, ⟨⟩, hg, ho, h⟩
    cases h
    obtain ⟨hq, hl⟩ := resolve_eq_ok.mp hq
    exact ⟨hs, ho, q, n, ⟨hq, hl, authorize_eq_ok.mp ha, granted_eq_ok.mp hg⟩, hd, rfl⟩
  · rintro ⟨hs, ho, q, n, ⟨hq, hl, ha, hg⟩, hd, rfl⟩
    exact ⟨hs, (q, n), resolve_eq_ok.mpr ⟨hq, hl⟩, hd, (), authorize_eq_ok.mpr ha, (),
      granted_eq_ok.mpr hg, ho, rfl⟩

theorem openForWrite_eq_ok {size : UInt64} {q : Path} :
    e.openForWrite t path size = .ok q ↔
      size ≤ e.maxIo ∧ ∃ n, e.Opens t path Access.write q n ∧ n.isDirectory = false := by
  simp only [openForWrite, bind_eq_ok, guard_eq_ok, Bool.not_eq_true, UInt64.not_lt]
  constructor
  · rintro ⟨hs, ⟨q, n⟩, hq, hd, ⟨⟩, ha, ⟨⟩, hg, h⟩
    cases h
    obtain ⟨hq, hl⟩ := resolve_eq_ok.mp hq
    exact ⟨hs, n, ⟨hq, hl, authorize_eq_ok.mp ha, granted_eq_ok.mp hg⟩, hd⟩
  · rintro ⟨hs, n, ⟨hq, hl, ha, hg⟩, hd⟩
    exact ⟨hs, (q, n), resolve_eq_ok.mpr ⟨hq, hl⟩, hd, (), authorize_eq_ok.mpr ha, (),
      granted_eq_ok.mpr hg, rfl⟩

theorem openFile_eq_ok {flags : UInt32} :
    e.openFile t path flags = .ok () ↔
      ∃ q n, e.Opens t path (accessOfFlags flags) q n
        ∧ ¬ (accessOfFlags flags &&& Access.write != 0 && n.isDirectory) = true
        ∧ ¬ (flags &&& OpenFlags.directory != 0 && !n.isDirectory) = true := by
  simp only [openFile, bind_eq_ok, guard_eq_ok]
  constructor
  · rintro ⟨⟨q, n⟩, hq, hw, ⟨⟩, ha, hd, hg⟩
    obtain ⟨hq, hl⟩ := resolve_eq_ok.mp hq
    exact ⟨q, n, ⟨hq, hl, authorize_eq_ok.mp ha, granted_eq_ok.mp hg⟩, hw, hd⟩
  · rintro ⟨q, n, ⟨hq, hl, ha, hg⟩, hw, hd⟩
    exact ⟨(q, n), resolve_eq_ok.mpr ⟨hq, hl⟩, hw, (), authorize_eq_ok.mpr ha, hd,
      granted_eq_ok.mpr hg⟩

theorem writeAt_eq_ok {q : Path} {offset : UInt64} {data : Bytes} {count : UInt64} {t' : Tree} :
    writeAt q offset data t = (.ok count, t') ↔
      offset.toNat < offsetLimit ∧ count = UInt64.ofNat data.length
        ∧ t' = t.modify q (·.overlay offset.toNat data) := by
  unfold writeAt
  split
  · next h =>
    constructor
    · intro hc
      cases congrArg Prod.fst hc
    · intro hc
      exact absurd hc.1 (by omega)
  · next h =>
    have hlimit : offset.toNat < offsetLimit := by omega
    rw [Prod.mk.injEq, Except.ok.injEq, and_iff_right hlimit]
    exact and_congr eq_comm eq_comm

end Export
end UnionFS
