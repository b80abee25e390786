import UnionFS.Proofs.Export.Permission
import UnionFS.Proofs.Export.Seclusion

/-!
# On whose permission a path is followed

A session acts for an account, but its paths are followed by the server's process, which may have
more rights.  The process goes through no directory that it may not search itself
(`Leads.reaches`).  The account is asked about the object at the end of the path and about nothing
else: accounts that are granted the same there are answered alike (`GrantsAlike.perform`).
`granted_of_perform` puts both together, and `not_always_searchable` shows what follows: an account
can read a file in a directory that is closed to it.
-/

namespace UnionFS

namespace Path

/-- The path leads over the other on the way from the root. -/
def Above (p q : Path) : Prop := p <+: q ∧ p ≠ q

variable {p q : Path} {name : Name}

theorem not_above_nil : ¬ Above p [] := fun h => h.2 (List.prefix_nil.mp h.1)

theorem Above.of_dropLast (h : Above p q.dropLast) : Above p q := by
  have hle := List.dropLast_prefix q
  refine ⟨h.1.trans hle, ?_⟩
  rintro rfl
  exact h.2 (h.1.eq_of_length_le hle.length_le)

/-- Above a child there are its directory and what is above that. -/
theorem Above.cases_child (h : Above p (q ++ [name])) : p = q ∨ Above p q := by
  rcases List.prefix_concat_iff.mp h.1 with rfl | hp
  · exact absurd rfl h.2
  · by_cases hq : p = q
    · exact .inl hq
    · exact .inr ⟨hp, hq⟩

end Path

namespace Tree

open UnionFS.Path

variable {t : Tree} {here q : Path} {name : Name} {todo : List Name} {k : Nat} {n : Node}

/-- The process may search every directory above the place. -/
def Reaches (t : Tree) (q : Path) : Prop := ∀ p, Above p q → t.searchable p = true

theorem reaches_nil : t.Reaches [] := fun _ hp => absurd hp not_above_nil

theorem Reaches.dropLast (h : t.Reaches here) : t.Reaches here.dropLast :=
  fun p hp => h p hp.of_dropLast

theorem Reaches.child (h : t.Reaches here) (he : t.Enters here name n) :
    t.Reaches (here ++ [name]) := by
  intro p hp
  rcases hp.cases_child with rfl | hp
  · exact he.searched
  · exact h p hp

/-- **Where a walk ends, the process may search every directory above**, whatever links have led
there. -/
theorem Leads.reaches (h : t.Leads here todo k q) (hhere : t.Reaches here) : t.Reaches q := by
  induction h with
  | stop => exact hhere
  | idle _ ih | stay _ _ ih => exact ih hhere
  | up _ _ ih => exact ih hhere.dropLast
  | directory he _ _ ih => exact ih (hhere.child he)
  | file he _ => exact hhere.child he
  | @link here q name todo k n target he hn _ ih =>
      refine ih ?_
      unfold linkBase
      split
      · exact reaches_nil
      · exact hhere

end Tree

theorem Account.permits_exists (a : Account) (mode owner group : UInt32) :
    a.permits mode owner group Access.exists_ = true := by
  rw [permits]
  rfl

/-- The superuser may search every directory. -/
theorem Account.permits_search {a : Account} (h : a.uid = 0) {d : Node}
    (hdir : d.isDirectory = true) (hkind : d.permissions &&& Mode.kindMask = 0) :
    a.permits d.mode d.owner d.group Access.execute = true := by
  have hcontent : d.content = .directory := by
    unfold Node.isDirectory at hdir
    split at hdir
    · next h => exact h
    · cases hdir
  have hmode : d.mode = Mode.directory ||| d.permissions := by
    rw [Node.mode, hcontent]
  refine (a.permits_superuser h _ _ _ _).mpr fun _ => .inl ?_
  rw [Mode.isDirectory, hmode, Mode.or_and_of_disjoint hkind]
  rfl

theorem bind_congr_of_ok {α β : Type} {o : Outcome α} {f g : α → Outcome β}
    (h : ∀ a, o = .ok a → f a = g a) : o >>= f = o >>= g := by
  cases o with
  | error c => rfl
  | ok a => exact h a rfl

namespace Request

/-- The permissions that a request asks for, on the object that its path leads to. -/
def asks : Request → UInt32
  | .getattr _ => Access.exists_
  | .access _ mask => mask
  | .readdir _ | .read _ _ _ => Access.read
  | .write _ _ _ => Access.write
  | .openFile _ flags => Export.accessOfFlags flags

end Request

namespace Export

open UnionFS.Path

variable {e : Export} {t : Tree} {path : String} {r : Request} {q : Path} {n : Node}
  {mask : UInt32} {a : Account}

/-! ## Permission on the object -/

theorem Opens.resolve (h : e.Opens t path mask q n) : e.resolve t path = .ok (q, n) :=
  resolve_eq_ok.mpr ⟨h.confined, h.found⟩

/-- A request that is not refused has found an object on which the account is granted what it asks
for. -/
theorem permits_of_perform {answer : r.Answer} (h : (e.perform t r).1 = .ok answer) :
    ∃ q n, e.resolve t r.path = .ok (q, n)
      ∧ e.user.permits n.mode n.owner n.group r.asks = true := by
  cases r with
  | getattr path =>
      obtain ⟨q, n, hq, hn, -⟩ := getattr_eq_ok.mp h
      exact ⟨q, n, resolve_eq_ok.mpr ⟨hq, hn⟩, e.user.permits_exists _ _ _⟩
  | access path mask =>
      obtain ⟨q, n, hq, hn, hpermits⟩ := access_eq_ok.mp h
      exact ⟨q, n, resolve_eq_ok.mpr ⟨hq, hn⟩, hpermits⟩
  | readdir path =>
      obtain ⟨q, n, hopens, -⟩ := readdir_eq_ok.mp h
      exact ⟨q, n, hopens.resolve, hopens.permitted⟩
  | read path size offset =>
      obtain ⟨-, -, q, n, hopens, -⟩ := read_eq_ok.mp h
      exact ⟨q, n, hopens.resolve, hopens.permitted⟩
  | openFile path flags =>
      obtain ⟨q, n, hopens, -⟩ := openFile_eq_ok.mp h
      exact ⟨q, n, hopens.resolve, hopens.permitted⟩
  | write path data offset =>
      change (e.write t path data offset).1 = _ at h
      cases hopen : e.openForWrite t path (UInt64.ofNat data.length) with
      | error c =>
          rw [write, hopen] at h
          cases h
      | ok q =>
          obtain ⟨-, n, hopens, -⟩ := openForWrite_eq_ok.mp hopen
          exact ⟨q, n, hopens.resolve, hopens.permitted⟩

/-! ## Another account -/

/-- The same export in the name of another account. -/
def inNameOf (e : Export) (a : Account) : Export := { e with user := a }

/-- What the path leads to is granted to the other account as it is to the export's own. -/
def GrantsAlike (e : Export) (a : Account) (t : Tree) (path : String) (mask : UInt32) : Prop :=
  ∀ q n, e.resolve t path = .ok (q, n) →
    a.permits n.mode n.owner n.group mask = e.user.permits n.mode n.owner n.group mask

namespace GrantsAlike

/-- A path leads to the same object in the name of any account, so only the permission on it is
left to compare. -/
theorem authorize (h : e.GrantsAlike a t path mask) {found : Path × Node}
    (hfound : e.resolve t path = .ok found) :
    (e.inNameOf a).authorize found.2 mask = e.authorize found.2 mask := by
  rw [Export.authorize, Export.authorize]
  rw [show (e.inNameOf a).user = a from rfl, h found.1 found.2 hfound]

theorem access (h : e.GrantsAlike a t path mask) :
    (e.inNameOf a).access t path mask = e.access t path mask :=
  bind_congr_of_ok fun _ hfound => h.authorize hfound

theorem readdir (h : e.GrantsAlike a t path Access.read) :
    (e.inNameOf a).readdir t path = e.readdir t path := by
  refine bind_congr_of_ok fun found hfound => ?_
  dsimp only
  rw [h.authorize hfound]

theorem read (h : e.GrantsAlike a t path Access.read) (size offset : UInt64) :
    (e.inNameOf a).read t path size offset = e.read t path size offset := by
  refine congrArg (ite _ _) (bind_congr_of_ok fun found hfound => ?_)
  dsimp only
  rw [h.authorize hfound]

theorem openForWrite (h : e.GrantsAlike a t path Access.write) (size : UInt64) :
    (e.inNameOf a).openForWrite t path size = e.openForWrite t path size := by
  refine congrArg (ite _ _) (bind_congr_of_ok fun found hfound => ?_)
  dsimp only
  rw [h.authorize hfound]

theorem openFile {flags : UInt32} (h : e.GrantsAlike a t path (accessOfFlags flags)) :
    (e.inNameOf a).openFile t path flags = e.openFile t path flags := by
  refine bind_congr_of_ok fun found hfound => ?_
  dsimp only
  rw [h.authorize hfound]

/-- **An account makes a difference by what it is granted at the end of the path, and by nothing
else.** -/
theorem perform (h : e.GrantsAlike a t r.path r.asks) :
    (e.inNameOf a).perform t r = e.perform t r := by
  cases r with
  | getattr path => rfl
  | access path mask => exact Prod.ext h.access rfl
  | readdir path => exact Prod.ext h.readdir rfl
  | read path size offset => exact Prod.ext (h.read size offset) rfl
  | openFile path flags => exact Prod.ext h.openFile rfl
  | write path data offset =>
      have hopen : e.GrantsAlike a t path Access.write := h
      rw [Export.perform, Export.perform, write, write, hopen.openForWrite]

end GrantsAlike

/-! ## What a request tells that is not refused -/

/-- A request has found the object `n` at `q` and is not refused. -/
structure Granted (e : Export) (t : Tree) (r : Request) (q : Path) (n : Node) : Prop where
  found : e.resolve t r.path = .ok (q, n)
  /-- The account is granted what it asks for on the object itself. -/
  permitted : e.user.permits n.mode n.owner n.group r.asks = true
  /-- Above it there are directories all the way, and the process may search them. -/
  searched : ∀ p, Above p q →
    ∃ d, t.lookup p = some d ∧ d.isDirectory = true ∧ t.grants d Access.execute = true
  /-- So may the account, if it is the superuser's. -/
  superuser : e.user.uid = 0 → ∀ p d, Above p q → t.lookup p = some d →
    d.permissions &&& Mode.kindMask = 0 →
      e.user.permits d.mode d.owner d.group Access.execute = true
  /-- Of any other it is not asked: the permission on the object is enough for the same answer. -/
  unasked : ∀ a : Account, a.permits n.mode n.owner n.group r.asks = true →
    (e.inNameOf a).perform t r = e.perform t r

/-- **Where a request is not refused, the account has its permission on the object, and the process
has come there through directories that it may search itself.** -/
theorem granted_of_perform (ht : t.WellFormed) {answer : r.Answer}
    (h : (e.perform t r).1 = .ok answer) : ∃ q n, e.Granted t r q n := by
  obtain ⟨q, n, hfound, hpermits⟩ := permits_of_perform h
  obtain ⟨hconfine, hn⟩ := resolve_eq_ok.mp hfound
  obtain ⟨-, hreal, -⟩ := confine_eq_ok_iff.mp hconfine
  obtain ⟨k, -, hleads⟩ := hreal.leads
  have hreaches : t.Reaches q := hleads.reaches Tree.reaches_nil
  have habove (p : Path) (hp : Above p q) : ∃ d, t.lookup p = some d ∧ d.isDirectory = true := by
    obtain ⟨rest, hrest⟩ := hp.1
    have hdir : t.isDirectory p = true := by
      refine ht.above (by rw [hn]; rfl) hrest.symm ?_
      rintro rfl
      exact hp.2 (by rw [← hrest, List.append_nil])
    exact (Option.any_eq_true _ _).mp hdir
  refine ⟨q, n, hfound, hpermits, ?_, ?_, ?_⟩
  · intro p hp
    obtain ⟨d, hd, hdir⟩ := habove p hp
    have hsearch := hreaches p hp
    rw [Tree.searchable, hd] at hsearch
    exact ⟨d, hd, hdir, hsearch⟩
  · intro hroot p d hp hd hkind
    obtain ⟨d', hd', hdir⟩ := habove p hp
    obtain rfl := Option.some.inj (hd.symm.trans hd')
    exact Account.permits_search hroot hdir hkind
  · intro a ha
    refine GrantsAlike.perform fun q' n' hfound' => ?_
    cases hfound.symm.trans hfound'
    rw [ha, hpermits]

/-! ## Behind a closed directory -/

/-- A directory that only the superuser may search. -/
def sampleClosed : Tree := sampleRoot.put [[100]] { content := .directory, permissions := 0o700 }

/-- In it, a file that everybody may read. -/
def sampleHidden : Tree :=
  sampleClosed.put [[100], [102]] { content := .file [1], permissions := 0o644 }

/-- An export of all of it, in the name of somebody else. -/
def sampleStranger : Export := ⟨[], ⟨"user", 54321, 54321⟩, 4096, 1048576⟩

theorem wellFormed_sampleHidden : sampleHidden.WellFormed := by
  have hclosed : sampleClosed.WellFormed := by
    have hplain : Name.IsPlain [100] := isPlain_of_singleton (by decide) (by decide) (by decide)
    have hdir : sampleRoot.isDirectory [] = true := by decide
    exact wellFormed_sampleRoot.put hdir hplain (by decide) _
  have hplain : Name.IsPlain [102] := isPlain_of_singleton (by decide) (by decide) (by decide)
  have hdir : sampleClosed.isDirectory [[100]] = true := by decide
  exact hclosed.put hdir hplain (by decide) _

theorem granted_of_perform_sample :
    sampleHidden.WellFormed
      ∧ (sampleStranger.perform sampleHidden (.read "/d/f" 1 0)).1 = .ok [1]
      ∧ ∃ q n, sampleStranger.Granted sampleHidden (.read "/d/f" 1 0) q n := by
  have hread : (sampleStranger.perform sampleHidden (.read "/d/f" 1 0)).1 = .ok [1] := by cbv
  exact ⟨wellFormed_sampleHidden, hread, granted_of_perform wellFormed_sampleHidden hread⟩

/-- **A file can be read in a directory that is closed to the account.** -/
theorem not_always_searchable :
    ¬ ∀ (e : Export) (t : Tree) (r : Request) (answer : r.Answer) (q : Path) (n : Node),
      t.WellFormed → r.asks ≠ 0 → (e.perform t r).1 = .ok answer →
        e.resolve t r.path = .ok (q, n) →
          ∀ p d, e.root <+: p → Above p q → t.lookup p = some d →
            e.user.permits d.mode d.owner d.group Access.execute = true := by
  intro h
  have hread : (sampleStranger.perform sampleHidden (.read "/d/f" 1 0)).1 = .ok [1] := by cbv
  have hresolve : sampleStranger.resolve sampleHidden "/d/f" =
      .ok ([[100], [102]], { content := .file [1], permissions := 0o644 }) := by cbv
  have hsearch := h sampleStranger sampleHidden (.read "/d/f" 1 0) [1] _ _ wellFormed_sampleHidden
    (by decide) hread hresolve [[100]] { content := .directory, permissions := 0o700 }
    List.nil_prefix (by unfold Above; decide) (by decide)
  exact absurd hsearch (by decide)

end Export

end UnionFS
