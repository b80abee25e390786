import UnionFS.Os.Errno
import UnionFS.Wire.Stat

/-!
# Requests

The operations on files that a server offers, with their arguments.  What a request is answered with
depends on the request.
-/

namespace UnionFS

inductive Request where
  | getattr (path : String)
  | access (path : String) (mask : UInt32)
  | readdir (path : String)
  | read (path : String) (size offset : UInt64)
  | write (path : String) (data : Bytes) (offset : UInt64)
  | openFile (path : String) (flags : UInt32)
  deriving DecidableEq, Repr

namespace Request

/-- What a request gives if it is not refused. -/
abbrev Answer : Request → Type
  | getattr _ => Stat
  | access _ _ => Unit
  | readdir _ => List Entry
  | read _ _ _ => Bytes
  | write _ _ _ => UInt64
  | openFile _ _ => Unit

def path : Request → String
  | getattr p | access p _ | readdir p | read p _ _ | write p _ _ | openFile p _ => p

end Request

namespace OpenFlags

def accessMask : UInt32 := 0o3
def readOnly : UInt32 := 0o0
def writeOnly : UInt32 := 0o1
def readWrite : UInt32 := 0o2
/-- Only a directory will do. -/
def directory : UInt32 := 0o200000

end OpenFlags
end UnionFS
