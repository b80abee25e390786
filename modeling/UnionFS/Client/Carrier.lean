import UnionFS.Failure
import UnionFS.Wire.Dialogue

/-!
# Carriers

What carries the bytes between a client and its servers: sockets, or a network that is itself a
value.  A client needs no more of it than to open a stream, to send and receive on it and to let it
go.
-/

namespace UnionFS.Client

/-- Why no stream could be opened. -/
inductive DialFailure where
  | timeout
  | refused (cause : IoError)
  deriving DecidableEq, Repr

/-- A network in the monad `m`, whose streams are named by `L`. -/
structure Carrier (m : Type → Type) (L : Type) where
  dial : (address : String) → m (Except DialFailure L)
  send : L → Bytes → m (Except WireError Unit)
  /-- The next so many bytes: an error if the stream ends before, or if waiting takes too long. -/
  receive : L → Nat → m (Except WireError Bytes)
  /-- Close the client's side. -/
  shutdown : L → m (Except WireError Unit)
  /-- Let a stream go. -/
  drop : L → m Unit

namespace Carrier

variable {m : Type → Type} [Monad m] {L α : Type}

/-- Run a client's dialogue on a stream. -/
def converse (net : Carrier m L) (line : L) : Dialogue Unit α → m (Except WireError α)
  | .done a => return .ok a
  | .fail e => return .error e
  | .send bytes rest => do
    match ← net.send line bytes with
    | .ok () => net.converse line rest
    | .error e => return .error e
  | .receive count rest => do
    match ← net.receive line count with
    | .ok bytes => net.converse line (rest bytes)
    | .error e => return .error e
  | .consult rest => net.converse line (rest ())
  | .commit _ rest => net.converse line rest

end Carrier
end UnionFS.Client
