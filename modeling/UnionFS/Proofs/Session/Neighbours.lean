import UnionFS.Proofs.Session.Dates

/-!
# Sessions that do not disturb each other

Two exports of one tree whose roots are not inside one another share nothing that a session depends
on.  What a session writes stays below its own root (`Spares`), and what it answers depends on
nothing else that another could write (`solely`).  Hence each session of a company goes the way that
it would go alone, whatever the others do in the meantime.

The dates are the machine's, and it may note that a link was followed, by whomever.  A path that one
session is refused can thus move the date of a link that another one lists.  It shows there as a
date and in no other way (`undisturbed`).
-/

namespace UnionFS

open Dialogue Wire

/-! ## Exports that stand apart -/

namespace Export

variable {e e' : Export} {r t t' t'' : Tree} {q : Path} {d : Dialogue Tree Unit}

/-- Neither root is inside the other. -/
structure Apart (e e' : Export) : Prop where
  outside : ¬ e.root <+: e'.root
  aside : ¬ e'.root <+: e.root

theorem Apart.not_inside (h : e.Apart e') (hq : e.root <+: q) : ¬ e'.root <+: q := by
  intro hq'
  rcases List.prefix_or_prefix_of_prefix hq hq' with hin | hin
  · exact h.outside hin
  · exact h.aside hin

namespace SameInside

theorem refl (e : Export) (t : Tree) : e.SameInside t t := ⟨rfl, rfl, fun _ => rfl⟩

theorem symm (h : e.SameInside t t') : e.SameInside t' t :=
  ⟨h.privileged.symm, h.inside.symm, fun path => (h.confine path).symm⟩

theorem trans (h : e.SameInside t t') (h' : e.SameInside t' t'') : e.SameInside t t'' :=
  ⟨h.privileged.trans h'.privileged, h.inside.trans h'.inside,
    fun path => (h.confine path).trans (h'.confine path)⟩

/-- What is written outside the root does not change what is inside. -/
theorem modify_outside (h : e.SameInside t t') (hq : ¬ e.root <+: q) (offset : Nat) (data : Bytes) :
    e.SameInside t (t'.modify q (·.overlay offset data)) := by
  refine ⟨h.privileged, ?_, fun path => ?_⟩
  · rw [h.inside, Export.inside, Export.inside, Tree.modify, List.filter_map]
    symm
    refine (List.map_congr_left fun x hx => ?_).trans (List.map_id _)
    have hin : e.root <+: x.1 := List.isPrefixOf_iff_prefix.mp (List.mem_filter.mp hx).2
    have hne : ¬ x.1 = q := by
      intro hsame
      exact hq (hsame ▸ hin)
    simp [hne]
  · -- and paths lead where they led
    have keep : (t'.modify q (·.overlay offset data)).SameOutline t' :=
      Tree.SameOutline.modify (.refl _) q offset data
    rw [h.confine, confine_congr keep]

end SameInside

/-- The second tree is the first as far as exports can see that stand apart. -/
def Spares (e : Export) (t t' : Tree) : Prop :=
  ∀ e', e.Apart e' → e'.SameInside t t'

theorem Spares.refl (e : Export) (t : Tree) : e.Spares t t := fun e' _ => .refl e' t

theorem Spares.writeAt (h : e.Spares t t') (hq : e.root <+: q) (offset : UInt64) (data : Bytes) :
    e.Spares t (Export.writeAt q offset data t').2 := by
  intro e' hapart
  have hsame := h e' hapart
  unfold Export.writeAt
  split
  · exact hsame
  · exact hsame.modify_outside (hapart.not_inside hq) _ data

/-- What is marked inside the root is the same, and so is what is inside. -/
theorem SameInside.mark (h : e.SameInside t t') {m m' : Marks}
    (hm : ∀ p, e.root <+: p → m p = m' p) : e.SameInside (t.mark m) (t'.mark m') := by
  have key (s : Tree) (m : Marks) : e.inside (s.mark m) =
      (e.inside s).map fun x => (x.1, (m x.1).elim x.2 x.2.dated) := by
    rw [Export.inside, Tree.mark, List.filter_map]
    rfl
  refine ⟨h.privileged, ?_, fun path => ?_⟩
  · rw [key, key, h.inside]
    refine List.map_congr_left fun x hx => ?_
    rw [hm x.1 (List.isPrefixOf_iff_prefix.mp (List.mem_filter.mp hx).2)]
  · rw [← confine_congr (t.sameOutline_mark m), ← confine_congr (t'.sameOutline_mark m'), h.confine]

/-- Two runs that serve this export and no other, on trees that are the same inside it.  All that
stands apart is spared. -/
def solely (e : Export) : Likeness where
  said := Eq
  tree := e.SameInside
  kept := e.Spares
  serves := (· = e)
  same _ := rfl
  alike := by
    rintro _ rfl c t t' h
    exact alike_serve h c
  keeps := by
    rintro _ rfl c t
    exact keeps_serve_of (fun _ _ _ offset data hroot h => h.writeAt hroot offset data) c t

end Export

/-! ## Sessions -/

namespace Session

/-- The export that the session serves. -/
def export? (s : Session) : Option Export :=
  match s.phase with
  | .idle e | .half e | .busy e _ => some e
  | .authenticating _ | .closed _ => none

variable {s : Session} {e e' : Export}

/-- The session serves this export and no other, or has ended. -/
def Uses (s : Session) (e : Export) : Prop := e.solely.Fits s

theorem Uses.unique (h : s.Uses e) (he : s.export? = some e') : e = e' := by
  rw [Uses, Likeness.Fits] at h
  rw [export?] at he
  cases hphase : s.phase with
  | idle served | half served =>
      rw [hphase] at h he
      exact h.symm.trans (Option.some.inj he)
  | busy served pending =>
      rw [hphase] at h he
      exact h.1.symm.trans (Option.some.inj he)
  | authenticating pending | closed time =>
      rw [hphase] at he
      cases he

/-! ## Sessions that have been reached -/

/-- The session has begun at some time, and something has happened to it since, on whatever tree it
was then. -/
inductive Reached : Session → Prop where
  | start (g : Gate) (now : Nat) : Reached (.start g now)
  | arrive {s : Session} (now : Nat) (t : Tree) (bytes : Bytes) :
    Reached s → Reached (s.arrive now t bytes).session
  | hangUp {s : Session} (now : Nat) (t : Tree) : Reached s → Reached (s.hangUp now t).session
  | pass {s : Session} (time : Nat) : Reached s → Reached (s.pass time)

/-- A client has been let in, and its session serves this export. -/
structure Authenticated (s : Session) (e : Export) : Prop where
  reached : s.Reached
  serves : s.export? = some e

/-- The session waits for its token, uses an export, or has ended. -/
inductive Stands (s : Session) : Prop where
  | authenticating {pending : Dialogue Tree (Except HandshakeFailure Export)} :
    s.phase = .authenticating pending → Stands s
  | serving {e : Export} : s.Uses e → Stands s
  | closed {time : Nat} : s.phase = .closed time → Stands s

theorem Stands.resume (h : s.Stands) (now : Nat) (t : Tree) (input : Bytes) :
    (s.resume now t input).session.Stands := by
  cases h with
  | @serving e huses =>
      have hfits : e.solely.Fits s := huses
      exact .serving (hfits.resume now input (.refl e t) (.refl e t)).fits
  | closed hphase =>
      rw [Session.resume, hphase]
      exact .closed hphase
  | @authenticating pending hphase =>
      rw [Session.resume, hphase]
      dsimp only
      split
      · next e _ =>
        have hagree := Likeness.agree_serveAll (L := e.solely) rfl s now
          (pending.feed input t).unread (.refl e (pending.feed input t).state)
          (.refl e (pending.feed input t).state)
        exact .serving hagree.fits
      · exact .closed rfl
      · split
        · exact .closed rfl
        · exact .authenticating rfl

theorem Stands.ended (h : s.Stands) : ({ s with ended := true } : Session).Stands := by
  cases h with
  | authenticating hphase => exact .authenticating hphase
  | serving huses => exact .serving (Likeness.fits_of_phase huses rfl)
  | closed hphase => exact .closed hphase

theorem Stands.runOut (h : s.Stands) : s.runOut.Stands := by
  cases h with
  | serving huses => exact .serving (Likeness.Fits.runOut huses)
  | closed hphase =>
      rw [Session.runOut, hphase]
      exact .closed hphase
  | authenticating hphase =>
      rw [Session.runOut, hphase]
      exact .closed rfl

theorem Reached.stands (h : s.Reached) : s.Stands := by
  induction h with
  | start g now => exact .authenticating rfl
  | arrive now t bytes _ ih =>
      rw [Session.arrive]
      split
      · exact ih
      · exact ih.resume now t _
  | @hangUp s now t _ ih => exact ih.ended.resume now t s.unread
  | pass time _ ih => exact pass_of_runOut (fun s (hs : s.Stands) => hs.runOut) ih time

/-- **Whatever has happened to a session, it serves its export as is proper.** -/
theorem Authenticated.uses (h : s.Authenticated e) : s.Uses e := by
  obtain ⟨hreached, hserves⟩ := h
  cases hreached.stands with
  | serving huses =>
      obtain rfl := huses.unique hserves
      exact huses
  | closed hphase | authenticating hphase =>
      rw [export?, hphase] at hserves
      cases hserves

/-- It also goes the same way on a tree with blank dates. -/
theorem Reached.blanking (h : s.Reached) : blanking.Fits s := by
  induction h with
  | start g now => exact (Course.akin_start g ⟨[], true⟩ now).fits
  | arrive now t bytes _ ih => exact (ih.arrive now bytes (t := t) rfl (r := t) trivial).fits
  | hangUp now t _ ih => exact (ih.hangUp now (t := t) rfl (r := t) trivial).fits
  | pass time _ ih => exact ih.pass time

end Session

/-! ## Side by side -/

namespace Company

variable {ι : Type} [DecidableEq ι] {c blank : Company ι} {exports : ι → Export}
  {alone : ι → Course} {u : Upkeep}

/-- Another session does something, and this one does nothing. -/
theorem akin_aside {L : Likeness} {c c' : Course} {t : Tree} (h : L.Akin c c')
    (ht : L.tree t c'.tree) : L.Akin { c with tree := t } (c'.meet .nothing) where
  session := h.session
  now := h.now
  sent := by
    rw [Course.meet, List.append_nil]
    exact h.sent
  tree := ht
  fits := h.fits

theorem akin_meet (hapart : ∀ i j, i ≠ j → (exports i).Apart (exports j))
    (h : ∀ i, (exports i).solely.Akin (c.course i) (alone i)) (m : Move ι) (i : ι) :
    (exports i).solely.Akin ((c.meet m.client m.deed).course i)
      ((alone i).meet (m.turn i).deed) := by
  have hclient := (h m.client).meet m.deed (.refl (exports m.client) c.tree)
  rw [Move.turn]
  split
  · next hself =>
    subst hself
    rw [course_meet_self]
    exact hclient.1
  · next hother =>
    rw [course_meet_of_ne c hother]
    have hspared := hclient.2 (exports i) (hapart m.client i (Ne.symm hother))
    exact akin_aside (h i) (hspared.symm.trans (h i).tree)

/-- The induction is on the moves to come. -/
theorem akin_followUnder (hapart : ∀ i j, i ≠ j → (exports i).Apart (exports j))
    (h : ∀ i, (exports i).solely.Akin (c.course i) (alone i)) (moves : List (Move ι))
    {us : ι → Upkeep} (hu : ∀ i n p, (exports i).root <+: p → u n p = us i n p) (i : ι) :
    (exports i).solely.Akin ((c.followUnder u moves).course i)
      ((alone i).followUnder (us i) (scheduleOf i moves)) := by
  induction moves generalizing c alone u us with
  | nil => exact h i
  | cons m rest ih =>
      rw [followUnder, scheduleOf, List.map_cons, Course.followUnder]
      have hmark (j : ι) :
          (exports j).solely.Akin ((c.mark (u 0)).course j) ((alone j).mark (us j 0)) :=
        ⟨(h j).session, (h j).now, (h j).sent, (h j).tree.mark (hu j 0), (h j).fits⟩
      have hnext (j : ι) : (exports j).solely.Akin
          ((((c.mark (u 0)).meet m.client m.deed).wait m.pause).course j)
          ((((alone j).mark (us j 0)).meet (m.turn j).deed).wait m.pause) := by
        rw [course_wait]
        exact (akin_meet hapart hmark m j).wait m.pause
      exact ih hnext fun j n p hp => hu j (n + 1) p hp

/-- Whatever is marked, the sessions go the way that they go where nothing is.  The induction is on
the moves to come. -/
theorem akin_blank (h : ∀ i, blanking.Akin (c.course i) (blank.course i)) (u : Upkeep)
    (moves : List (Move ι)) (i : ι) :
    blanking.Akin ((c.followUnder u moves).course i)
      ((blank.followUnder .idle moves).course i) := by
  induction moves generalizing c blank u with
  | nil => exact h i
  | cons m rest ih =>
      rw [followUnder, followUnder]
      have hmark (j : ι) : blanking.Akin ((c.mark (u 0)).course j)
          ((blank.mark (Upkeep.idle 0)).course j) := by
        rw [course_mark, course_mark, Course.mark_idle]
        exact Course.akin_mark (h j) (u 0)
      have hclient := ((hmark m.client).meet m.deed (r := c.tree) trivial).1
      have hmeet (j : ι) : blanking.Akin (((c.mark (u 0)).meet m.client m.deed).course j)
          (((blank.mark (Upkeep.idle 0)).meet m.client m.deed).course j) := by
        by_cases hj : j = m.client
        · subst hj
          rw [course_meet_self, course_meet_self]
          exact hclient
        · rw [course_meet_of_ne _ hj, course_meet_of_ne _ hj]
          exact { hmark j with tree := hclient.tree }
      have hnext (j : ι) : blanking.Akin
          ((((c.mark (u 0)).meet m.client m.deed).wait m.pause).course j)
          ((((blank.mark (Upkeep.idle 0)).meet m.client m.deed).wait m.pause).course j) :=
        (hmeet j).wait m.pause
      exact ih hnext u.next

/-- The company on the tree with blank dates. -/
def undated (c : Company ι) : Company ι := { c with tree := c.tree.undated }

/-- Each session goes the way that it goes alone on a machine that keeps the same dates inside its
root. -/
theorem akin_alone (hauth : ∀ i, (c.sessions i).Authenticated (exports i))
    (hroots : ∀ i j, i ≠ j → ¬ (exports i).root <+: (exports j).root) (moves : List (Move ι))
    {i : ι} {u' : Upkeep} (hu : ∀ n p, (exports i).root <+: p → u n p = u' n p) :
    (exports i).solely.Akin ((c.followUnder u moves).course i)
      ((c.course i).followUnder u' (scheduleOf i moves)) := by
  have hapart (i j : ι) (hij : i ≠ j) : (exports i).Apart (exports j) :=
    ⟨hroots i j hij, hroots j i (Ne.symm hij)⟩
  have hstart (j : ι) : (exports j).solely.Akin (c.course j) (c.course j) :=
    ⟨rfl, rfl, .one rfl, .refl _ _, (hauth j).uses⟩
  have hus (j : ι) (n : Nat) (p : Path) (hp : (exports j).root <+: p) :
      u n p = (if j = i then u' else u) n p := by
    split
    · next hj =>
      subst hj
      exact hu n p hp
    · rfl
  have hakin := akin_followUnder hapart hstart moves hus i
  rwa [if_pos rfl] at hakin

/-- Two directories with a file each, and a link from one to the other. -/
def sampleTree : Tree :=
  { nodes := [([], { content := .directory, permissions := 0o755 }),
      ([[97]], { content := .directory, permissions := 0o755 }),
      ([[97], [102]], { content := .file [1], permissions := 0o644 }),
      ([[97], [108]], { content := .link [47, 98, 47, 102], permissions := 0o777 }),
      ([[98]], { content := .directory, permissions := 0o755 }),
      ([[98], [102]], { content := .file [2], permissions := 0o644 })] }

def sampleGate : Gate := ⟨[⟨"/a", "root", "k"⟩, ⟨"/b", "root", "l"⟩], Accounts.superuserOnly, {}⟩

/-- A session whose client has sent its token. -/
def sampleCompany : Company Bool :=
  { sessions := fun i =>
      ((Session.start sampleGate 0).arrive 0 sampleTree (ofKey (if i then "k" else "l"))).session
    tree := sampleTree
    now := 0 }

def sampleExports (i : Bool) : Export :=
  { root := [[if i then 97 else 98]]
    user := { name := "root", uid := 0, gid := 0 }
    maxPath := sampleGate.config.maxPath
    maxIo := sampleGate.config.maxIo }

set_option maxRecDepth 10000 in
theorem serves_sample (i : Bool) : (sampleCompany.sessions i).export? = some (sampleExports i) := by
  cases i <;> cbv

set_option maxRecDepth 10000 in
/-- One client writes while the other reads, and follows its link in vain. -/
example :
    let moves : List (Move Bool) := [
      ⟨true, .send (Client.opening (.write "/f" [7] 0)), 1⟩,
      ⟨false, .send (Client.opening (.read "/f" 1 0)), 1⟩,
      ⟨true, .send [7], 1⟩,
      ⟨true, .send (Client.opening (.read "/l" 1 0)), 1⟩]
    let company := sampleCompany.followUnder .idle moves
    company.sent true = ofCode 0 ++ Export.replySize (.ok 1) ++ ofCode Code.accessDenied ∧
      company.sent false = Export.replyData (.ok [2]) := by
  constructor <;> cbv

end Company
end UnionFS
