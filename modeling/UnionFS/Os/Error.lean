import UnionFS.Os.Errno

/-!
# Input and output errors

An error of the operating system carries a number.  An error found by the program itself carries a
kind and a text, and stands for a number only through its kind.
-/

namespace UnionFS

/-- What sort of failure an error found by the program itself is. -/
inductive FaultKind where
  | notFound
  | permissionDenied
  | alreadyExists
  | invalidInput
  | invalidData
  | timedOut
  | unexpectedEnd
  | other
  deriving DecidableEq, Repr

inductive IoError where
  /-- The operating system refused a call with this error number. -/
  | system (number : Int32)
  /-- The program refused an operation itself. -/
  | found (kind : FaultKind) (text : String)
  deriving DecidableEq, Repr

namespace FaultKind

/-- The error number that a kind stands for; input/output error for one that stands for none. -/
def number : FaultKind → Int
  | notFound => 2
  | permissionDenied => 13
  | alreadyExists => 17
  | invalidInput => 22
  | timedOut => 110
  | invalidData | unexpectedEnd | other => 5

end FaultKind

namespace IoError

/-- The negated error number, also of a number that is itself negative. -/
def code : IoError → Code
  | system number => Int64.ofInt (-number.toInt)
  | found kind _ => Int64.ofInt (-kind.number)

def message : IoError → String
  | system number => s!"{Errno.describe number.toInt} (os error {number.toInt})"
  | found _ text => text

/-- The bytes of a text file were not UTF-8. -/
def notText : IoError :=
  found .invalidData "stream did not contain valid UTF-8"

/-- No file has a name with a zero byte. -/
def zeroInName : IoError :=
  found .invalidInput "file name contained an unexpected NUL byte"

end IoError

/-- The error of the operating system that a code stands for, as a call would report it. -/
def Code.toIoError (code : Code) : IoError :=
  .system (Int32.ofInt (-code.toInt))

end UnionFS
