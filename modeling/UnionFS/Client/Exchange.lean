import UnionFS.Request
import UnionFS.Wire.Codec

/-!
# Exchanges

The client's end of a request: it sends the command and the arguments, then reads the reply.  A
negative code is a complete reply.  An error means that the stream cannot be trusted any more.
-/

namespace UnionFS.Client

open Wire

/-- The most that a client takes of what a server sends. -/
structure Limits where
  maxPath : UInt64
  maxEntries : UInt64
  deriving DecidableEq, Repr

variable {σ : Type}

/-- What a request starts with: its command, its path and its other arguments. -/
def opening : Request → Bytes
  | .getattr path => ofCommand .getattr ++ ofText path
  | .access path mask => ofCommand .access ++ ofText path ++ ofMask mask
  | .readdir path => ofCommand .readdir ++ ofText path
  | .read path size offset => ofCommand .read ++ ofText path ++ ofSize size ++ ofSize offset
  | .write path data offset =>
    ofCommand .write ++ ofText path ++ ofSize (UInt64.ofNat data.length) ++ ofSize offset
  | .openFile path flags => ofCommand .openFile ++ ofText path ++ ofMask flags

/-- Read a code, and go on only if it is no refusal. -/
def unlessRefused {α : Type} (next : Dialogue σ α) : Dialogue σ (Outcome α) := do
  let code ← readCode
  if code < 0 then return .error code else return .ok (← next)

/-- The reply to a request whose opening has been sent. -/
def readReply (limits : Limits) : (r : Request) → Dialogue σ (Outcome r.Answer)
  | .getattr _ => unlessRefused readStat
  | .access _ _ | .openFile _ _ => unlessRefused (.done ())
  | .readdir _ => unlessRefused do
    let count ← readSize
    if limits.maxEntries < count then .fail (.lengthExceeded .payload count limits.maxEntries)
    else readEntries limits.maxPath count.toNat
  | .read _ size _ => unlessRefused do readBlock (← readSize) size
  | .write _ data _ => do
    match ← unlessRefused (.say data) with
    | .error code => return .error code
    | .ok () => unlessRefused readSize

/-- One request and its reply. -/
def exchange (limits : Limits) (r : Request) : Dialogue σ (Outcome r.Answer) := do
  .say (opening r)
  readReply limits r

/-- A heartbeat has to be answered by a heartbeat. -/
def heartbeat : Dialogue σ Unit := do
  .say (ofCommand .heartbeat)
  match ← readCommand with
  | .heartbeat => return ()
  | reply => .fail (.violation s!"expected HEARTBEAT, got {reply.name}")

end UnionFS.Client
