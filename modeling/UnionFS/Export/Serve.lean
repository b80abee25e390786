import UnionFS.Export.Basic
import UnionFS.Wire.Codec

/-!
# Serving requests

The server's end of a request: after the command it reads the arguments, performs the request on the
tree and sends one reply.  A path that is not text is refused in the reply, once all arguments are
read; a length above its limit ends the dialogue instead.  A write has two replies, and its data
come between them only if the first is zero.
-/

namespace UnionFS.Export

open Wire

/-- A path argument, or the code that the reply will carry. -/
def readPath (e : Export) : Dialogue Tree (Outcome String) := do
  let length ← readSize
  let bytes ← readBlock length e.maxPath
  match Utf8.decode bytes with
  | some path => return .ok path
  | none => return .error .illegalSequence

/-- The reply of a request that gives no value. -/
def replyUnit : Outcome Unit → Bytes
  | .ok () => ofCode 0
  | .error c => ofCode c

def replyStat : Outcome Stat → Bytes
  | .ok stat => ofCode 0 ++ ofStat stat
  | .error c => ofCode c

def replyEntries : Outcome (List Entry) → Bytes
  | .ok entries => ofCode 0 ++ ofSize (UInt64.ofNat entries.length) ++ entries.flatMap ofEntry
  | .error c => ofCode c

/-- The data read, with their length both as a code and as a size. -/
def replyData : Outcome Bytes → Bytes
  | .ok data => ofCode (Int64.ofNat data.length) ++ ofSize (UInt64.ofNat data.length) ++ data
  | .error c => ofCode c

def replySize : Outcome UInt64 → Bytes
  | .ok size => ofCode 0 ++ ofSize size
  | .error c => ofCode c

/-- The rest of a request whose command has been read.  A command that is no request is passed over.
-/
def serve (e : Export) : Command → Dialogue Tree Unit
  | .getattr => do
    let path ← e.readPath
    .say (replyStat (← .inspect fun t => path.bind (e.getattr t)))
  | .access => do
    let path ← e.readPath
    let mask ← readMask
    .say (replyUnit (← .inspect fun t => path.bind (e.access t · mask)))
  | .readdir => do
    let path ← e.readPath
    .say (replyEntries (← .inspect fun t => path.bind (e.readdir t)))
  | .read => do
    let path ← e.readPath
    let size ← readSize
    let offset ← readSize
    .say (replyData (← .inspect fun t => path.bind (e.read t · size offset)))
  | .write => do
    let path ← e.readPath
    let size ← readSize
    let offset ← readSize
    match ← .inspect fun t => path.bind (e.openForWrite t · size) with
    | .error c => .say (ofCode c)
    | .ok q =>
      .say (ofCode 0)
      let data ← readBlock size e.maxIo
      .say (replySize (← .update (writeAt q offset data)))
  | .openFile => do
    let path ← e.readPath
    let flags ← readMask
    .say (replyUnit (← .inspect fun t => path.bind (e.openFile t · flags)))
  | _ => .done ()

end UnionFS.Export
