import Mathlib
import UnionFS.Proofs.Export.Success

/-!
# One verdict for all operations

Four operations ask for permissions: an access check names them, reading and writing imply them, and
opening has them in its flags.  Each asks in its own place and after checks of its own, and still
all come to the verdict of the access check: `agree_on` says so for every path that leads to no
directory, with the same code where it is refused.  The verdict on several permissions is that on
each of them (`permits_iff_forall`).

A process is assumed to which the kernel denies nothing, so that the account alone is asked.
-/

namespace UnionFS

/-! ## Permissions bit by bit -/

namespace Access

/-- The permissions that can be asked for, one by one. -/
def each : List UInt32 := [read, write, execute]

variable {bits mask bit : UInt32} {k : Nat}

theorem covers_iff : bits &&& mask = mask ↔
    ∀ i, mask.toNat.testBit i = true → bits.toNat.testBit i = true := by
  rw [← UInt32.toNat_inj, UInt32.toNat_and]
  constructor
  · intro h i hi
    have hbit := congrArg (Nat.testBit · i) h
    simp only [Nat.testBit_and, hi, Bool.and_true] at hbit
    exact hbit
  · intro h
    refine Nat.eq_of_testBit_eq fun i => ?_
    rw [Nat.testBit_and]
    cases hi : mask.toNat.testBit i with
    | false => exact Bool.and_false _
    | true => rw [h i hi, Bool.and_true]

theorem covers_bit_iff (h : bit.toNat = 2 ^ k) :
    bits &&& bit = bit ↔ bits.toNat.testBit k = true := by
  rw [covers_iff, h]
  simp [Nat.testBit_two_pow]

theorem asks_bit_iff (h : bit.toNat = 2 ^ k) :
    mask &&& bit ≠ 0 ↔ mask.toNat.testBit k = true := by
  rw [ne_eq, ← UInt32.toNat_inj, UInt32.toNat_and, h, Nat.and_two_pow]
  cases mask.toNat.testBit k <;> simp

theorem testBit_and_all (i : Nat) :
    (mask &&& all).toNat.testBit i = true ↔ mask.toNat.testBit i = true ∧ i < 3 := by
  have hall : all.toNat = 2 ^ 3 - 1 := rfl
  rw [UInt32.toNat_and, Nat.testBit_and, hall, Nat.testBit_two_pow_sub_one, Bool.and_eq_true,
    decide_eq_true_eq]

/-- What is granted covers a mask if it covers each permission of it. -/
theorem covers_iff_forall : bits &&& (mask &&& all) = mask &&& all ↔
    ∀ bit ∈ each, mask &&& bit ≠ 0 → bits &&& bit = bit := by
  have hread : read.toNat = 2 ^ 2 := rfl
  have hwrite : write.toNat = 2 ^ 1 := rfl
  have hexecute : execute.toNat = 2 ^ 0 := rfl
  rw [covers_iff]
  simp only [testBit_and_all, each, List.forall_mem_cons, List.not_mem_nil, false_implies,
    implies_true, and_true, asks_bit_iff hread, asks_bit_iff hwrite, asks_bit_iff hexecute,
    covers_bit_iff hread, covers_bit_iff hwrite, covers_bit_iff hexecute]
  constructor
  · intro h
    exact ⟨fun h2 => h 2 ⟨h2, by decide⟩, fun h1 => h 1 ⟨h1, by decide⟩,
      fun h0 => h 0 ⟨h0, by decide⟩⟩
  · rintro ⟨h2, h1, h0⟩ i ⟨hi, hlt⟩
    match i, hlt with
    | 0, _ => exact h0 hi
    | 1, _ => exact h1 hi
    | 2, _ => exact h2 hi

end Access

/-- Bits that a mask leaves out make no difference to what it takes in. -/
theorem Mode.or_and_of_disjoint {bits mask : UInt32} (h : bits &&& mask = 0) (mode : UInt32) :
    (mode ||| bits) &&& mask = mode &&& mask := by
  have hnone := congrArg UInt32.toNat h
  rw [UInt32.toNat_and] at hnone
  rw [← UInt32.toNat_inj, UInt32.toNat_and, UInt32.toNat_or, Nat.and_or_distrib_right, hnone,
    UInt32.toNat_and]
  exact Nat.or_zero _

namespace Account

/-- The superuser is denied nothing but to execute what nobody may. -/
theorem permits_superuser {a : Account} (h : a.uid = 0) (mode owner group mask : UInt32) :
    a.permits mode owner group mask = true ↔
      (mask &&& Access.execute ≠ 0 → Mode.isDirectory mode = true ∨ mode &&& 0o111 ≠ 0) := by
  have hexecute : mask &&& Access.all &&& Access.execute = mask &&& Access.execute := by
    rw [UInt32.and_assoc]
    rfl
  rw [permits, h]
  by_cases hmask : mask &&& Access.all = 0
  · have hnone : mask &&& Access.execute = 0 := by rw [← hexecute, hmask, UInt32.zero_and]
    simp [hmask, hnone]
  · simp [hmask, hexecute]
    tauto

/-- Any other account is granted what the first class that it is in is granted. -/
theorem permits_other {a : Account} (h : a.uid ≠ 0) (mode owner group mask : UInt32) :
    a.permits mode owner group mask = true ↔
      Mode.classBits mode owner group a.uid a.gid &&& (mask &&& Access.all) =
        mask &&& Access.all := by
  rw [permits]
  by_cases hmask : mask &&& Access.all = 0
  · simp [hmask]
  · simp [hmask, h]

/-- **Several permissions are granted if each of them is.** -/
theorem permits_iff_forall (a : Account) (mode owner group mask : UInt32) :
    a.permits mode owner group mask = true ↔
      ∀ bit ∈ Access.each, mask &&& bit ≠ 0 → a.permits mode owner group bit = true := by
  by_cases hroot : a.uid = 0
  · have hread : Access.read &&& Access.execute = 0 := rfl
    have hwrite : Access.write &&& Access.execute = 0 := rfl
    have hexecute : Access.execute ≠ 0 := by decide
    simp only [permits_superuser hroot, Access.each, List.forall_mem_cons, hread, hwrite]
    simp [hexecute]
  · simp only [permits_other hroot]
    rw [Access.covers_iff_forall]
    refine forall_congr' fun bit => forall₂_congr fun hbit _ => ?_
    have hall : bit &&& Access.all = bit := by
      simp only [Access.each, List.mem_cons, List.not_mem_nil, or_false] at hbit
      rcases hbit with rfl | rfl | rfl <;> rfl
    rw [hall]

end Account

/-! ## Flags -/

namespace OpenFlags

def create : UInt32 := 0o100
def exclusive : UInt32 := 0o200
def truncate : UInt32 := 0o1000
def append : UInt32 := 0o2000

/-- Flags that say how to open a file, and not for what. -/
def manner : UInt32 := create ||| exclusive ||| truncate ||| append

/-- Flags that differ in their manner only. -/
def Manner (extra : UInt32) : Prop := extra &&& ~~~manner = 0

variable {extra mask : UInt32}

theorem Manner.and_eq_zero (h : Manner extra) (hmask : ~~~manner &&& mask = mask) :
    extra &&& mask = 0 := by
  rw [← hmask, ← UInt32.and_assoc, h, UInt32.zero_and]

theorem or_and_of_manner (h : Manner extra) (hmask : ~~~manner &&& mask = mask) (mode : UInt32) :
    (mode ||| extra) &&& mask = mode &&& mask :=
  Mode.or_and_of_disjoint (h.and_eq_zero hmask) mode

end OpenFlags

namespace Export

variable {e : Export} {t : Tree} {path : String}

/-- The manner in which a file is opened makes no difference to the permissions that it takes. -/
theorem accessOfFlags_or {extra : UInt32} (h : OpenFlags.Manner extra) (mode : UInt32) :
    accessOfFlags (mode ||| extra) = accessOfFlags mode := by
  rw [accessOfFlags, accessOfFlags, OpenFlags.or_and_of_manner h rfl]

/-! ## Agreement -/

/-- What the kernel and the tree have to be like for the account alone to decide. -/
structure Plain (e : Export) (t : Tree) (path : String) : Prop where
  /-- The kernel denies the process nothing. -/
  privileged : t.privileged = true
  /-- The path leads to no directory. -/
  file : ∀ q n, e.resolve t path = .ok (q, n) → n.isDirectory = false

/-- The operation succeeds where the permission is granted, and is refused with the same code where
it is not. -/
def Accords {α : Type} (o : Outcome α) (verdict : Outcome Unit) : Prop :=
  o.map (fun _ => ()) = verdict

theorem granted_of_privileged (h : t.privileged = true) (n : Node) (mask : UInt32) :
    granted t n mask = .ok () :=
  granted_eq_ok.mpr (Tree.grants_of_privileged h n mask)

namespace Plain

variable (h : e.Plain t path)

include h

theorem read {size offset : UInt64} (hsize : size ≤ e.maxIo)
    (hoffset : offset.toNat < offsetLimit) :
    Accords (e.read t path size offset) (e.access t path Access.read) := by
  rw [Accords, Export.read, Export.access, if_neg (UInt64.not_lt.mpr hsize)]
  cases hr : e.resolve t path with
  | error c => rfl
  | ok found =>
    obtain ⟨q, n⟩ := found
    dsimp only [bind, Except.bind]
    rw [h.file q n hr, if_neg Bool.false_ne_true, granted_of_privileged h.privileged,
      if_neg (Nat.not_le.mpr hoffset)]
    cases e.authorize n Access.read <;> rfl

theorem openForWrite {size : UInt64} (hsize : size ≤ e.maxIo) :
    Accords (e.openForWrite t path size) (e.access t path Access.write) := by
  rw [Accords, Export.openForWrite, Export.access, if_neg (UInt64.not_lt.mpr hsize)]
  cases hr : e.resolve t path with
  | error c => rfl
  | ok found =>
    obtain ⟨q, n⟩ := found
    dsimp only [bind, Except.bind]
    rw [h.file q n hr, if_neg Bool.false_ne_true, granted_of_privileged h.privileged]
    cases e.authorize n Access.write <;> rfl

/-- Opening asks for the permissions that its flags name, unless only a directory will do. -/
theorem openFile {flags : UInt32} (hflags : flags &&& OpenFlags.directory = 0) :
    e.openFile t path flags = e.access t path (accessOfFlags flags) := by
  rw [Export.openFile, Export.access]
  cases hr : e.resolve t path with
  | error c => rfl
  | ok found =>
    obtain ⟨q, n⟩ := found
    dsimp only [bind, Except.bind]
    rw [h.file q n hr, granted_of_privileged h.privileged, hflags]
    cases e.authorize n (accessOfFlags flags) <;> simp

/-- Neither does the manner in which a file is opened matter. -/
theorem openFile_or {mode extra : UInt32} (hmode : mode &&& OpenFlags.directory = 0)
    (hextra : OpenFlags.Manner extra) :
    e.openFile t path (mode ||| extra) = e.access t path (accessOfFlags mode) := by
  rw [h.openFile, accessOfFlags_or hextra]
  rw [OpenFlags.or_and_of_manner hextra (by decide), hmode]

end Plain

theorem access_of_error {c : Code} (h : e.resolve t path = .error c) (mask : UInt32) :
    e.access t path mask = .error c := by
  rw [access, h]
  rfl

theorem access_of_resolve {q : Path} {n : Node} (h : e.resolve t path = .ok (q, n))
    (mask : UInt32) : e.access t path mask = e.authorize n mask := by
  rw [access, h]
  rfl

theorem authorize_eq_error {n : Node} {mask : UInt32} {c : Code} :
    e.authorize n mask = .error c ↔
      e.user.permits n.mode n.owner n.group mask = false ∧ c = .accessDenied := by
  rw [authorize]
  cases e.user.permits n.mode n.owner n.group mask
  · simp [eq_comm]
  · simp

variable {mask : UInt32} (hmask : ∃ bit ∈ Access.each, mask &&& bit ≠ 0)

include hmask

/-- An account is granted several permissions on what a path leads to if it is granted each. -/
theorem access_iff_forall : e.access t path mask = .ok () ↔
    ∀ bit ∈ Access.each, mask &&& bit ≠ 0 → e.access t path bit = .ok () := by
  cases hr : e.resolve t path with
  | error c =>
    simp only [access_of_error hr]
    obtain ⟨bit, hbit, hasked⟩ := hmask
    constructor
    · intro h
      cases h
    · intro hall
      exact hall bit hbit hasked
  | ok found =>
    simp only [access_of_resolve hr, authorize_eq_ok]
    exact e.user.permits_iff_forall _ _ _ mask

/-- It is refused them with the code with which it is refused one of them. -/
theorem access_eq_error_iff_exists {c : Code} : e.access t path mask = .error c ↔
    ∃ bit ∈ Access.each, mask &&& bit ≠ 0 ∧ e.access t path bit = .error c := by
  cases hr : e.resolve t path with
  | error c' =>
    simp only [access_of_error hr]
    obtain ⟨bit, hbit, hasked⟩ := hmask
    constructor
    · intro h
      exact ⟨bit, hbit, hasked, h⟩
    · rintro ⟨-, -, -, h⟩
      exact h
  | ok found =>
    simp only [access_of_resolve hr, authorize_eq_error]
    have hpermits := e.user.permits_iff_forall found.2.mode found.2.owner found.2.group mask
    rw [← Bool.not_eq_true, hpermits]
    push Not
    simp only [Bool.not_eq_true]
    constructor
    · rintro ⟨⟨bit, hbit, hasked, hdenied⟩, hc⟩
      exact ⟨bit, hbit, hasked, hdenied, hc⟩
    · rintro ⟨bit, hbit, hasked, hdenied, hc⟩
      exact ⟨⟨bit, hbit, hasked, hdenied⟩, hc⟩

omit hmask

/-- The verdicts of all operations on one path. -/
structure Agreement (e : Export) (t : Tree) (path : String) : Prop where
  reading : e.Plain t path → ∀ size ≤ e.maxIo, ∀ offset : UInt64, offset.toNat < offsetLimit →
    Accords (e.read t path size offset) (e.access t path Access.read)
  writing : e.Plain t path → ∀ size ≤ e.maxIo,
    Accords (e.openForWrite t path size) (e.access t path Access.write)
  /-- A file is opened where it could be read, written or both, in whatever manner. -/
  openedToRead : e.Plain t path → ∀ extra, OpenFlags.Manner extra →
    e.openFile t path (OpenFlags.readOnly ||| extra) = e.access t path Access.read
  openedToWrite : e.Plain t path → ∀ extra, OpenFlags.Manner extra →
    e.openFile t path (OpenFlags.writeOnly ||| extra) = e.access t path Access.write
  openedForBoth : e.Plain t path → ∀ extra, OpenFlags.Manner extra →
    (e.openFile t path (OpenFlags.readWrite ||| extra) = .ok () ↔
        e.access t path Access.read = .ok () ∧ e.access t path Access.write = .ok ())
      ∧ ∀ c, e.openFile t path (OpenFlags.readWrite ||| extra) = .error c ↔
        e.access t path Access.read = .error c ∨ e.access t path Access.write = .error c
  /-- Whatever the path leads to, several permissions are granted if each of them is. -/
  several : ∀ mask, (∃ bit ∈ Access.each, mask &&& bit ≠ 0) →
    (e.access t path mask = .ok () ↔
        ∀ bit ∈ Access.each, mask &&& bit ≠ 0 → e.access t path bit = .ok ())
      ∧ ∀ c, e.access t path mask = .error c ↔
        ∃ bit ∈ Access.each, mask &&& bit ≠ 0 ∧ e.access t path bit = .error c

/-- **All operations come to the same verdict**, for every account, every ownership and all
permissions. -/
theorem agree_on (e : Export) (t : Tree) (path : String) : e.Agreement t path where
  reading h _ hsize _ hoffset := h.read hsize hoffset
  writing h _ hsize := h.openForWrite hsize
  openedToRead h _ hextra := h.openFile_or rfl hextra
  openedToWrite h _ hextra := h.openFile_or rfl hextra
  openedForBoth h extra hextra := by
    have hmask : ∃ bit ∈ Access.each, (Access.read ||| Access.write) &&& bit ≠ 0 :=
      ⟨Access.read, by simp [Access.each], by decide⟩
    have hopen : e.openFile t path (OpenFlags.readWrite ||| extra) =
        e.access t path (Access.read ||| Access.write) := h.openFile_or rfl hextra
    rw [hopen]
    have hread : (Access.read ||| Access.write) &&& Access.read ≠ 0 := by decide
    have hwrite : (Access.read ||| Access.write) &&& Access.write ≠ 0 := by decide
    have hexecute : (Access.read ||| Access.write) &&& Access.execute = 0 := by decide
    constructor
    · rw [access_iff_forall hmask]
      simp [Access.each, hread, hwrite, hexecute]
    · intro c
      rw [access_eq_error_iff_exists hmask]
      simp [Access.each, hread, hwrite, hexecute]
  several mask hmask := ⟨access_iff_forall hmask, fun _ => access_eq_error_iff_exists hmask⟩

/-- A file that its group may read. -/
def sampleShared : Tree :=
  { nodes := [([], { content := .directory, permissions := 0o755 }),
      ([[102]], { content := .file [1], permissions := 0o640, owner := 1, group := 2 })] }

/-- An export of it in the name of one who is in the group. -/
def sampleMember : Export := ⟨[], ⟨"bob", 3, 2⟩, 16, 16⟩

theorem plain_sampleShared : sampleMember.Plain sampleShared "/f" := by
  have hresolve : sampleMember.resolve sampleShared "/f" = .ok ([[102]],
      { content := .file [1], permissions := 0o640, owner := 1, group := 2 }) := by cbv
  refine ⟨rfl, fun q n h => ?_⟩
  rw [hresolve] at h
  cases h
  rfl

theorem agree_on_sample : Accords (sampleMember.read sampleShared "/f" 1 0) (.ok ())
    ∧ sampleMember.openFile sampleShared "/f" (OpenFlags.readOnly ||| OpenFlags.append) = .ok ()
    ∧ sampleMember.openFile sampleShared "/f" (OpenFlags.readWrite ||| OpenFlags.truncate) =
        .error .accessDenied
    ∧ Accords (sampleMember.openForWrite sampleShared "/f" 1) (.error .accessDenied) := by
  have agree := agree_on sampleMember sampleShared "/f"
  have plain := plain_sampleShared
  have hread : sampleMember.access sampleShared "/f" Access.read = .ok () := by cbv
  have hwrite : sampleMember.access sampleShared "/f" Access.write = .error .accessDenied := by cbv
  have reading := agree.reading plain 1 (by decide) 0 (by decide)
  have writing := agree.writing plain 1 (by decide)
  have opened := agree.openedToRead plain OpenFlags.append (by unfold OpenFlags.Manner; decide)
  have both := agree.openedForBoth plain OpenFlags.truncate (by unfold OpenFlags.Manner; decide)
  rw [hread] at reading
  rw [hwrite] at writing
  exact ⟨reading, opened.trans hread, (both.2 _).mpr (.inr hwrite), writing⟩

end Export

end UnionFS
