import UnionFS.Bytes

/-!
# Commands

The first two bytes of a request, and all of a handshake's answer, are a command.  Main statement:
`ofWord?_eq_some_iff`, each command has one number and no other number is a command.
-/

namespace UnionFS

inductive Command where
  | stop
  | heartbeat
  | getattr
  | access
  | readdir
  | read
  | write
  | openFile
  | accept
  | invalidKey
  | mountNotFound
  | userNotFound
  | nothing
  deriving DecidableEq, Repr

namespace Command

/-- The number that stands for a command on the wire. -/
def word : Command → UInt16
  | stop => 0
  | heartbeat => 1
  | getattr => 2
  | access => 3
  | readdir => 4
  | read => 5
  | write => 6
  | openFile => 7
  | accept => 8
  | invalidKey => 9
  | mountNotFound => 10
  | userNotFound => 11
  | nothing => 12

def all : List Command :=
  [stop, heartbeat, getattr, access, readdir, read, write, openFile, accept, invalidKey,
    mountNotFound, userNotFound, nothing]

/-- The command that a number stands for. -/
def ofWord? (word : UInt16) : Option Command :=
  all.find? (·.word == word)

def name : Command → String
  | stop => "STOP"
  | heartbeat => "HEARTBEAT"
  | getattr => "GETATTR"
  | access => "ACCESS"
  | readdir => "READDIR"
  | read => "READ"
  | write => "WRITE"
  | openFile => "OPEN"
  | accept => "ACCEPT"
  | invalidKey => "INVALID_KEY"
  | mountNotFound => "MOUNT_NOT_FOUND"
  | userNotFound => "USER_NOT_FOUND"
  | nothing => "NONE"

/-- A handshake is answered with one of these four. -/
def isHandshakeReply : Command → Bool
  | accept | invalidKey | mountNotFound | userNotFound => true
  | _ => false

theorem word_injective {a b : Command} (h : a.word = b.word) : a = b := by
  revert h; cases a <;> cases b <;> decide

@[simp] theorem ofWord?_word (c : Command) : ofWord? c.word = some c := by
  cases c <;> decide

theorem ofWord?_eq_some_iff {w : UInt16} {c : Command} : ofWord? w = some c ↔ w = c.word := by
  constructor
  · intro h
    have := List.find?_some h
    exact (beq_iff_eq.mp this).symm
  · rintro rfl; exact ofWord?_word c

end Command
end UnionFS
