import UnionFS.Bytes

/-!
# File attributes

The part of a file's attributes that crosses a connection.  Its mode holds the kind of the file in
the bits `0o170000` and the permissions below them.
-/

namespace UnionFS

structure Stat where
  dev : UInt64 := 0
  mode : UInt32 := 0
  size : UInt64 := 0
  atime : Int64 := 0
  mtime : Int64 := 0
  ctime : Int64 := 0
  deriving DecidableEq, Repr, Inhabited

/-- One child of a listed directory. -/
structure Entry where
  name : String
  stat : Stat
  deriving DecidableEq, Repr, Inhabited

namespace Mode

/-- The bits of a mode that tell the kind of a file. -/
def kindMask : UInt32 := 0o170000
def regular : UInt32 := 0o100000
def directory : UInt32 := 0o040000
def link : UInt32 := 0o120000

def isDirectory (mode : UInt32) : Bool := mode &&& kindMask == directory
def isRegular (mode : UInt32) : Bool := mode &&& kindMask == regular

end Mode

namespace Stat

def isDirectory (stat : Stat) : Bool := Mode.isDirectory stat.mode
def isRegular (stat : Stat) : Bool := Mode.isRegular stat.mode

/-- The part that is the same wherever the file is: only files have a size, and only files and
directories a time of access. -/
def portable (stat : Stat) : Stat :=
  let file := stat.isRegular
  { stat with
    dev := 0, ctime := 0, size := if file then stat.size else 0
    atime := if file || stat.isDirectory then stat.atime else 0 }

end Stat
end UnionFS
