import UnionFS.Wire.Stat

/-!
# Accounts

A session acts for a local account.  What the account may do with a file follows from the file's
mode and ownership alone: the first class that the account is in decides, and the superuser may do
all but execute a file that nobody may.
-/

namespace UnionFS

structure Account where
  name : String
  uid : UInt32
  gid : UInt32
  deriving DecidableEq, Repr, Inhabited

namespace Access

/-- Permissions that can be asked for; asking for none asks whether the file is there. -/
def exists_ : UInt32 := 0
def execute : UInt32 := 1
def write : UInt32 := 2
def read : UInt32 := 4
def all : UInt32 := 7

end Access

namespace Mode

/-- The permissions of the class that a user belongs to: owner, group or others. -/
def classBits (mode owner group uid gid : UInt32) : UInt32 :=
  if uid == owner then mode >>> 6 &&& 7
  else if gid == group then mode >>> 3 &&& 7
  else mode &&& 7

end Mode

namespace Account

def describe (a : Account) : String :=
  s!"{a.name} ({a.uid}:{a.gid})"

/-- Whether the account is granted `mask` on a file of this mode and ownership. -/
def permits (a : Account) (mode owner group mask : UInt32) : Bool :=
  let mask := mask &&& Access.all
  if mask == 0 then true
  else if a.uid == 0 then
    mask &&& Access.execute == 0 || Mode.isDirectory mode || mode &&& 0o111 != 0
  else Mode.classBits mode owner group a.uid a.gid &&& mask == mask

end Account

/-- The local accounts, by name. -/
abbrev Accounts := List (String × Account)

namespace Accounts

def find? (accounts : Accounts) (name : String) : Option Account :=
  accounts.lookup name

/-- A system with no account but the superuser's. -/
def superuserOnly : Accounts := [("root", ⟨"root", 0, 0⟩)]

end Accounts
end UnionFS
