import UnionFS.Cli.Report
import UnionFS.Union.Basic

/-!
# Commands

What each command does on the union.  A command is a plan that ends in a report.

* A file is printed in blocks, all from the server that opened it, until an empty block.
* A file is replaced only as a whole: what was not written makes the command fail.
-/

namespace UnionFS.Cli

/-- A report on a refused operation, or on what it gave. -/
def reportOn {α : Type} (path : String) (answer : Outcome α) (report : α → Report) : Report :=
  match answer with
  | .ok a => report a
  | .error code => .ofTrouble (.refused path code)

/-- Show the attributes of a file, and who has it. -/
def stat (u : Union) (path : String) (json : Bool) : UnionPlan Report := do
  match ← u.getattr path with
  | .error code => return .ofTrouble (.refused path code)
  | .ok s =>
    if json then return .ofLines [(Record.ofStat s).print 0]
    else return .ofLines [statLine s, serversLine (← u.locate path)]

def list (u : Union) (path : String) (json : Bool) : UnionPlan Report := do
  return reportOn path (← u.readdir path) fun entries =>
    if json then .ofLines [(Record.list (entries.map .ofEntry)).print 0]
    else .ofLines (entries.map entryLine)

/-- No offset in a file is this great. -/
def offsetEnd : Nat := 2 ^ 64

/-- Print a file from `offset` on. -/
def catFrom (u : Union) (path : String) (handle : FileHandle) (limit : UInt64) (offset : Nat) :
    UnionPlan Report :=
  (u.read path limit (UInt64.ofNat offset) (some handle)).bind fun
    | .error code => .done (.ofTrouble (.refused path code))
    | .ok block =>
      if h : block ≠ [] ∧ offset + block.length < offsetEnd then
        have : offsetEnd - (offset + block.length) < offsetEnd - offset := by
          have := List.length_pos_iff.mpr h.1
          omega
        (catFrom u path handle limit (offset + block.length)).bind fun r => .done (r.after block)
      else .done { output := block }
termination_by offsetEnd - offset
decreasing_by assumption

/-- Print a file, in blocks of at most `limit` bytes. -/
def cat (u : Union) (path : String) (limit : UInt64) : UnionPlan Report := do
  match ← u.openFile path OpenFlags.readOnly with
  | .error code => return .ofTrouble (.refused path code)
  | .ok handle => catFrom u path handle limit 0

/-- Replace a file by `data`. -/
def put (u : Union) (path : String) (data : Bytes) : UnionPlan Report := do
  return reportOn path (← u.replace path data) fun (_, written) =>
    if written.toNat < data.length then
      .ofTrouble (.said s!"{path}: short write ({written.toNat} of {data.length})")
    else {}

end UnionFS.Cli
