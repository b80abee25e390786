import UnionFS.Os.Error

/-!
# Errors of a conversation

What can go wrong while two ends talk.  Each cause stands for a code that a caller of a file
operation sees, and all but one leave the stream at an unknown place, so that it has to be closed.
-/

namespace UnionFS

/-- Which kind of field declared too great a length. -/
inductive LengthField where
  /-- A path or another text. -/
  | name
  /-- A block of data or a count of entries. -/
  | payload
  deriving DecidableEq, Repr

inductive WireError where
  | io (cause : IoError)
  /-- The other end closed the stream, possibly in the middle of a message. -/
  | closed
  | timeout
  | lengthExceeded (field : LengthField) (length limit : UInt64)
  | unknownCommand (word : UInt16)
  | notUtf8
  /-- A reply that was not due. -/
  | violation (text : String)
  | other (text : String)
  deriving DecidableEq, Repr

namespace WireError

/-- The code that a caller of a file operation sees. -/
def code : WireError → Code
  | io cause => cause.code
  | closed => .notConnected
  | timeout => .timedOut
  | lengthExceeded .name _ _ => .nameTooLong
  | lengthExceeded .payload _ _ => .tooLarge
  | unknownCommand _ | notUtf8 | violation _ => .protocolBroken
  | other _ => .inputOutput

/-- The stream can no longer be trusted.  Only an unknown command leaves it at the start of the next
message. -/
def isFatal : WireError → Bool
  | unknownCommand _ => false
  | _ => true

def message : WireError → String
  | io cause => s!"I/O error: {cause.message}"
  | closed => "Connection closed by peer"
  | timeout => "Timed out"
  | lengthExceeded _ length limit => s!"Declared length {length} exceeds maximum {limit}"
  | unknownCommand word => s!"Unknown command {word}"
  | notUtf8 => "String field is not valid UTF-8"
  | violation text => s!"Protocol violation: {text}"
  | other text => text

/-- An error of the stream itself.  An end where more was due means that the other end closed it. -/
def ofIo : IoError → WireError
  | .found .unexpectedEnd _ => closed
  | cause => io cause

end WireError
end UnionFS
