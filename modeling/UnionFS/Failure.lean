import UnionFS.Wire.Command
import UnionFS.Wire.Error

/-!
# Failures of set-up

Why a handshake was refused, why a connection could not be made or lost, and why the program as a
whole could not start.
-/

namespace UnionFS

/-- Every answer to a handshake but acceptance. -/
inductive HandshakeFailure where
  /-- The key is not in the server's list. -/
  | invalidKey
  /-- The key was found, but not the directory it mounts. -/
  | mountNotFound
  /-- The key was found, but not the account it is bound to. -/
  | userNotFound
  /-- The answer was none that a handshake can have. -/
  | unexpected (word : UInt16)
  deriving DecidableEq, Repr

namespace HandshakeFailure

/-- The command that a server sends for a failure. -/
def reply : HandshakeFailure → Command
  | invalidKey => .invalidKey
  | mountNotFound => .mountNotFound
  | userNotFound => .userNotFound
  | unexpected _ => .nothing

def message : HandshakeFailure → String
  | invalidKey => "key rejected"
  | mountNotFound => "mount root not found on server"
  | userNotFound => "user not found on server"
  | unexpected word => s!"unexpected handshake reply {word}"

end HandshakeFailure

inductive ConnectionError where
  /-- No stream could be opened. -/
  | connect (address : String) (cause : IoError)
  | handshake (server : String) (reason : HandshakeFailure)
  | protocol (cause : WireError)
  | notConnected
  | timeout
  | stopped
  deriving DecidableEq, Repr

namespace ConnectionError

def message : ConnectionError → String
  | connect address cause => s!"Could not connect to {address}: {cause.message}"
  | handshake server reason => s!"Handshake with {server} failed: {reason.message}"
  | protocol cause => s!"Protocol error: {cause.message}"
  | notConnected => "Not connected"
  | timeout => "Connection timeout"
  | stopped => "Connection stopped"

/-- An error of the conversation, where a timeout is the connection's own. -/
def ofWire : WireError → ConnectionError
  | .timeout => timeout
  | cause => protocol cause

end ConnectionError

inductive SetupError where
  | io (cause : IoError)
  | config (text : String)
  | connection (cause : ConnectionError)
  | protocol (cause : WireError)
  | other (text : String)
  deriving DecidableEq, Repr

namespace SetupError

def message : SetupError → String
  | io cause => s!"I/O error: {cause.message}"
  | config text => s!"Invalid configuration: {text}"
  | connection cause => s!"Connection error: {cause.message}"
  | protocol cause => s!"Protocol error: {cause.message}"
  | other text => text

end SetupError
end UnionFS
