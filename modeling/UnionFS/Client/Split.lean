import UnionFS.Plan
import UnionFS.Request

/-!
# Requests in pieces

A read or write of more than a server takes at once is made in several exchanges.  At least one is
made, so that an empty read still tells whether the file can be read.  An error after the first
piece ends the request with what was done by then.
-/

namespace UnionFS.Client

/-- A plan of single exchanges with one server. -/
abbrev Exchanges (α : Type) := Plan Request (fun r => Outcome r.Answer) α

/-- No offset of a request is this great. -/
def offsetEnd : Nat := 2 ^ 64

/-- The rest of a read of `size` bytes at `offset`, of which `data` has been read.

That an empty piece ends it makes a difference for a limit of zero only.  The loop that leaves this
exit out is `readRounds`, which then goes on for ever. -/
def readOn (path : String) (size offset limit : Nat) (data : Bytes) : Exchanges (Outcome Bytes) :=
  let want := min (size - data.length) limit
  let position := offset + data.length
  if offsetEnd ≤ position then .done (.ok data)
  else .ask (.read path (UInt64.ofNat want) (UInt64.ofNat position)) fun
    | .error code => .done (if data.isEmpty then .error code else .ok data)
    | .ok chunk =>
      if h : chunk.length < want ∨ size ≤ (data ++ chunk).length ∨ chunk = [] then
        .done (.ok (data ++ chunk))
      else
        have : size - (data ++ chunk).length < size - data.length := by
          have hne : chunk.length ≠ 0 := fun e => h (.inr (.inr (List.eq_nil_of_length_eq_zero e)))
          simp only [not_or, List.length_append] at h ⊢
          omega
        readOn path size offset limit (data ++ chunk)
termination_by size - data.length
decreasing_by assumption

/-- Up to `size` bytes at `offset`, at most `limit` in one exchange. -/
def readSplit (path : String) (size offset limit : UInt64) : Exchanges (Outcome Bytes) :=
  readOn path size.toNat offset.toNat limit.toNat []

/-- The rest of a write of `data` at `offset`, of which the first `written` bytes are done.

That a piece of which nothing is taken ends it makes a difference for a limit of zero only, as with
`readOn`; without this exit the loop is `writeRounds`. -/
def writeOn (path : String) (data : Bytes) (offset limit written : Nat) :
    Exchanges (Outcome UInt64) :=
  let chunk := (data.drop written).take limit
  let position := offset + written
  if offsetEnd ≤ position then .done (.ok (UInt64.ofNat written))
  else .ask (.write path chunk (UInt64.ofNat position)) fun
    | .error code => .done (if written = 0 then .error code else .ok (UInt64.ofNat written))
    | .ok count =>
      let count := min count.toNat chunk.length
      if h : count < chunk.length ∨ data.length ≤ written + count ∨ count = 0 then
        .done (.ok (UInt64.ofNat (written + count)))
      else
        have : data.length - (written + count) < data.length - written := by omega
        writeOn path data offset limit (written + count)
termination_by data.length - written
decreasing_by assumption

/-- Write `data` at `offset`, at most `limit` bytes in one exchange, and give how many were written.
-/
def writeSplit (path : String) (data : Bytes) (offset limit : UInt64) :
    Exchanges (Outcome UInt64) :=
  writeOn path data offset.toNat limit.toNat 0

/-- A request as one exchange, or as many as it takes. -/
def split (limit : UInt64) : (r : Request) → Exchanges (Outcome r.Answer)
  | .read path size offset => readSplit path size offset limit
  | .write path data offset => writeSplit path data offset limit
  | .getattr path => .question (Request.getattr path)
  | .access path mask => .question (Request.access path mask)
  | .readdir path => .question (Request.readdir path)
  | .openFile path flags => .question (Request.openFile path flags)

end UnionFS.Client
