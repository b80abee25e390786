import UnionFS.Export.Basic

/-!
# Refusals

A client tells a refusal from an answer by its sign alone.  So every code that an export refuses
with has to be negative, whatever was asked: `refuses_perform`.
-/

namespace UnionFS

/-- Where an operation refuses, it does so with a negative code. -/
def Refuses {α : Type} (o : Outcome α) : Prop := ∀ c, o = .error c → c < 0

namespace Refuses

variable {α β : Type}

theorem ok (a : α) : Refuses (.ok a) := by
  intro c h; cases h

theorem error {c : Code} (h : c < 0) : Refuses (α := α) (.error c) := by
  intro c' h'; cases h'; exact h

theorem bind {o : Outcome α} {f : α → Outcome β} (h : Refuses o)
    (h' : ∀ a, o = .ok a → Refuses (f a)) : Refuses (o >>= f) := by
  cases o with
  | ok a => exact h' a rfl
  | error c => exact error (h c rfl)

theorem ite {p : Prop} [Decidable p] {o o' : Outcome α} (h : Refuses o) (h' : Refuses o') :
    Refuses (if p then o else o') := by
  split
  · exact h
  · exact h'

/-- An operation that first makes sure of something. -/
theorem guard {p : Prop} [Decidable p] {c : Code} {f : α → Outcome β} {o : Outcome β}
    (hc : c < 0) (h : Refuses o) : Refuses (if p then Except.error c >>= f else o) :=
  .ite (.error hc) h

end Refuses

namespace Tree

theorem refuses_child (t : Tree) (directory : Path) (name : Name) :
    Refuses (t.child directory name) := by
  unfold child
  split
  · exact .error (by decide)
  · split
    · exact .ok _
    · exact .error (by decide)

theorem refuses_resolve (t : Tree) (links : Nat) (here : Path) (todo : List Name) :
    Refuses (t.resolve links here todo) := by
  fun_induction t.resolve links here todo
  case case1 | case8 => exact .ok _
  case case2 ih | case4 ih | case5 ih | case7 ih | case11 ih => exact ih
  case case6 h => exact .error (refuses_child t _ _ _ h)
  case case3 | case9 | case10 => exact .error (by decide)

theorem refuses_realpath (t : Tree) (root : Path) (names : List Name) :
    Refuses (t.realpath root names) :=
  .ite (.error (by decide)) (refuses_resolve t _ _ _)

end Tree

namespace Export

variable (e : Export) (t : Tree)

theorem refuses_confine (path : String) : Refuses (e.confine t path) := by
  refine .bind ?_ fun names _ => .bind (t.refuses_realpath _ _) fun q _ => ?_
  · rw [Path.relative]
    exact .ite (.error (by decide)) (.ok _)
  · exact .ite (.ok q) (.error (by decide))

theorem refuses_resolve (path : String) : Refuses (e.resolve t path) := by
  refine .bind (e.refuses_confine t path) fun q _ => ?_
  split
  · exact .ok _
  · exact .error (by decide)

theorem refuses_authorize (n : Node) (mask : UInt32) : Refuses (e.authorize n mask) :=
  .ite (.ok ()) (.error (by decide))

theorem refuses_granted (n : Node) (mask : UInt32) : Refuses (granted t n mask) :=
  .ite (.ok ()) (.error (by decide))

theorem refuses_readdir (path : String) : Refuses (e.readdir t path) := by
  refine .bind (e.refuses_resolve t path) fun found _ => ?_
  refine .guard (by decide) ?_
  refine .bind (e.refuses_authorize _ _) fun _ _ => ?_
  exact .bind (refuses_granted t _ _) fun _ _ => .ok _

theorem refuses_read (path : String) (size offset : UInt64) :
    Refuses (e.read t path size offset) := by
  refine .guard (by decide) ?_
  refine .bind (e.refuses_resolve t path) fun found _ => ?_
  refine .guard (by decide) ?_
  refine .bind (e.refuses_authorize _ _) fun _ _ => ?_
  refine .bind (refuses_granted t _ _) fun _ _ => ?_
  exact .guard (by decide) (.ok _)

theorem refuses_openForWrite (path : String) (size : UInt64) :
    Refuses (e.openForWrite t path size) := by
  refine .guard (by decide) ?_
  refine .bind (e.refuses_resolve t path) fun found _ => ?_
  refine .guard (by decide) ?_
  refine .bind (e.refuses_authorize _ _) fun _ _ => ?_
  exact .bind (refuses_granted t _ _) fun _ _ => .ok _

theorem refuses_writeAt (q : Path) (offset : UInt64) (data : Bytes) :
    Refuses (writeAt q offset data t).1 := by
  rw [writeAt]
  split
  · exact .error (by decide)
  · exact .ok _

theorem refuses_openFile (path : String) (flags : UInt32) :
    Refuses (e.openFile t path flags) := by
  refine .bind (e.refuses_resolve t path) fun found _ => ?_
  refine .guard (by decide) ?_
  refine .bind (e.refuses_authorize _ _) fun _ _ => ?_
  exact .guard (by decide) (refuses_granted t _ _)

/-- **Whatever a request asks, a refusal of it is a negative code.** -/
theorem refuses_perform (r : Request) : Refuses (e.perform t r).1 := by
  cases r with
  | getattr path => exact .bind (e.refuses_resolve t path) fun found _ => .ok found.2.stat
  | access path mask =>
      exact .bind (e.refuses_resolve t path) fun found _ => e.refuses_authorize found.2 mask
  | readdir path => exact e.refuses_readdir t path
  | read path size offset => exact e.refuses_read t path size offset
  | write path data offset =>
      rw [perform, write]
      split
      · next c h => exact .error (e.refuses_openForWrite t path _ c h)
      · exact refuses_writeAt t _ offset data
  | openFile path flags => exact e.refuses_openFile t path flags

end Export
end UnionFS
