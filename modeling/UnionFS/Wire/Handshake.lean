import UnionFS.Failure
import UnionFS.Wire.Codec

/-!
# Handshake, client's end

The client sends its token and reads one command.  Whatever number comes back is an outcome; only a
stream that ends first is an error.
-/

namespace UnionFS

inductive HandshakeOutcome where
  | accepted
  | rejected (reason : HandshakeFailure)
  deriving DecidableEq, Repr

namespace HandshakeOutcome

def ofReply : Command → HandshakeOutcome
  | .accept => accepted
  | .invalidKey => rejected .invalidKey
  | .mountNotFound => rejected .mountNotFound
  | .userNotFound => rejected .userNotFound
  | reply => rejected (.unexpected reply.word)

end HandshakeOutcome

/-- Show a key and learn what the server makes of it. -/
def shakeHands {σ : Type} (key : String) : Dialogue σ HandshakeOutcome := do
  .say (Wire.ofKey key)
  let word ← Wire.readWord
  match Command.ofWord? word with
  | some reply => return .ofReply reply
  | none => return .rejected (.unexpected word)

end UnionFS
