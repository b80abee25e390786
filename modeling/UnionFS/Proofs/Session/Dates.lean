import UnionFS.Proofs.Export.Dates
import UnionFS.Proofs.Session.Likeness
import UnionFS.Session.Upkeep

/-!
# Sessions and dates

Whatever the machine marks while a schedule is followed, the session goes the way that it goes on
the tree with blank dates, where nothing is marked: it comes to the same phase, says the same but
for dates, and leaves the same tree but for dates (`akin_followUnder`).
-/

namespace UnionFS

open Dialogue Export

theorem Gate.decide_undated (g : Gate) (t : Tree) (key : String) :
    g.decide t.undated key = g.decide t key := by
  have hfind (path : Bytes) : t.undated.find path = t.find path :=
    (Tree.find_congr (t.sameOutline_mark _) path).symm
  have hdirectory (root : Path) : t.undated.isDirectory root = t.isDirectory root := by
    rw [Tree.isDirectory, Tree.isDirectory, Tree.lookup_undated]
    cases t.lookup root <;> rfl
  simp only [decide, hfind, hdirectory]

/-- A run on a tree, and one on the tree with blank dates. -/
def blanking : Likeness where
  said := Blanked
  tree t t' := t' = t.undated
  kept _ _ := True
  serves _ := True
  same := .same
  alike e _ c _ _ h := e.answers_undated.alike_serve h c
  keeps _ _ c t := keeps_serve_of (fun _ _ _ _ _ _ _ => trivial) c t

namespace Course

variable {c c' : Course} {u : Upkeep} {schedule : Schedule}

theorem suits_login (g : Gate) : blanking.Suits g.login where
  alike t t' h := by
    refine (Wire.stateless_readKey.alike _ _ t t' Blanked.same h).bind fun key s s' hs => ?_
    have hdecide : g.decide s key = g.decide s' key := by rw [hs, g.decide_undated]
    refine (Alike.inspect hs hdecide).bind fun decision r r' hr => ?_
    exact (Alike.say (.same _) hr).bind fun _ _ _ hv => .done _ hv
  keeps t :=
    (Wire.stateless_readKey.keeps _ t).bind fun _ _ => (Keeps.inspect _).bind fun _ _ =>
      (Keeps.say _).bind fun _ _ => trivial

theorem akin_start (g : Gate) (t : Tree) (now : Nat) :
    blanking.Akin (start g t now) (start g t.undated now) :=
  ⟨rfl, rfl, .nil, rfl, suits_login g, fun _ => trivial⟩

theorem akin_mark (h : blanking.Akin c c') (m : Marks) : blanking.Akin (c.mark m) c' :=
  ⟨h.session, h.now, h.sent, h.tree.trans (Tree.undated_mark _ m).symm, h.fits⟩

/-- The first turn, on a machine that keeps dates. -/
theorem akin_turn (h : blanking.Akin c c') (m : Marks) (deed : Deed) :
    blanking.Akin ((c.mark m).meet deed) (c'.meet deed) :=
  ((akin_mark h m).meet deed (r := c.tree) trivial).1

/-- **Whatever is marked, a session goes the same way.**  The induction is on the turns to come. -/
theorem akin_followUnder (h : blanking.Akin c c') (u : Upkeep) (schedule : Schedule) :
    blanking.Akin (c.followUnder u schedule) (c'.follow schedule) := by
  induction schedule generalizing c c' u with
  | nil => exact h
  | cons turn rest ih =>
      rw [follow_cons]
      exact ih ((akin_turn h (u 0) turn.deed).wait turn.pause) u.next

@[simp] theorem mark_idle (c : Course) : c.mark (Upkeep.idle 0) = c := by
  rw [mark, show Upkeep.idle 0 = fun _ => none from rfl, Tree.mark_none]

theorem followUnder_idle (c : Course) (schedule : Schedule) :
    c.followUnder .idle schedule = c.follow schedule := by
  induction schedule generalizing c with
  | nil => rfl
  | cons turn rest ih =>
      rw [followUnder, follow_cons, mark_idle]
      exact ih _

/-- Whatever is marked, the tree comes to the same but for dates. -/
theorem tree_followUnder (g : Gate) (t : Tree) (now : Nat) (u : Upkeep) (schedule : Schedule) :
    ((start g t now).followUnder u schedule).tree.undated =
      ((start g t now).follow schedule).tree.undated := by
  rw [← (akin_followUnder (akin_start g t now) u schedule).tree, ← followUnder_idle (start g t now),
    ← (akin_followUnder (akin_start g t now) .idle schedule).tree]

end Course
end UnionFS
