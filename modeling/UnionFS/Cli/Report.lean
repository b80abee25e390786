import UnionFS.Failure
import UnionFS.Text.Numeral
import UnionFS.Text.Quoted
import UnionFS.Text.Utf8
import UnionFS.Wire.Stat

/-!
# Reports

What a command says: text for a reader, records for a program, and the one line that tells why it
failed.
-/

namespace UnionFS.Cli

/-! ## Records -/

/-- A value to be printed over several lines. -/
inductive Record where
  | atom (text : String)
  | list (items : List Record)
  | fields (entries : List (String × Record))

namespace Record

/-- A character of a quoted text. -/
def escape (c : Char) : List Char :=
  match c with
  | '"' => ['\\', '"']
  | '\\' => ['\\', '\\']
  | '\x08' => ['\\', 'b']
  | '\x0c' => ['\\', 'f']
  | '\n' => ['\\', 'n']
  | '\r' => ['\\', 'r']
  | '\t' => ['\\', 't']
  | _ =>
    if c.toNat < 0x20 then
      let digits := Nat.toDigits 16 c.toNat
      ['\\', 'u'] ++ List.replicate (4 - digits.length) '0' ++ digits
    else [c]

def quoted (text : String) : String :=
  String.ofList ('"' :: text.toList.flatMap escape ++ ['"'])

def ofText (text : String) : Record := atom (quoted text)

def indent (depth : Nat) : String :=
  String.ofList (List.replicate (2 * depth) ' ')

/-- Lines between an opening and a closing bracket, with commas after all but the last. -/
def enclose (depth : Nat) (opening closing : String) (lines : List String) : String :=
  if lines.isEmpty then opening ++ closing
  else
    let inner := indent (depth + 1)
    opening ++ "\n" ++ String.intercalate ",\n" (lines.map (inner ++ ·)) ++ "\n" ++ indent depth
      ++ closing

mutual

/-- A record with two blanks more before each line of an inner one. -/
def print (depth : Nat) : Record → String
  | atom text => text
  | list items => enclose depth "[" "]" (printItems (depth + 1) items)
  | fields entries => enclose depth "\x7b" "\x7d" (printFields (depth + 1) entries)

def printItems (depth : Nat) : List Record → List String
  | [] => []
  | item :: rest => item.print depth :: printItems depth rest

def printFields (depth : Nat) : List (String × Record) → List String
  | [] => []
  | (name, value) :: rest =>
    (quoted name ++ ": " ++ value.print depth) :: printFields depth rest

end

def ofStat (s : Stat) : Record := fields [
  ("dev", atom (toString s.dev.toNat)), ("mode", atom (toString s.mode.toNat)),
  ("size", atom (toString s.size.toNat)), ("atime", atom (toString s.atime.toInt)),
  ("mtime", atom (toString s.mtime.toInt)), ("ctime", atom (toString s.ctime.toInt))]

def ofEntry (e : Entry) : Record := fields [("name", ofText e.name), ("stat", ofStat e.stat)]

end Record

/-! ## Lines -/

/-- The attributes of a file on one line. -/
def statLine (s : Stat) : String :=
  s!"mode {Text.octal s.mode.toNat}  size {s.size.toNat}  mtime {s.mtime.toInt}  dev {s.dev.toNat}"

def serversLine (names : List String) : String :=
  "servers: " ++ String.intercalate ", " names

def entryLine (e : Entry) : String :=
  let kind := if e.stat.isDirectory then "d" else "-"
  s!"{kind} {Text.padLeft 12 (toString e.stat.size.toNat)} {e.name}"

/-! ## Troubles -/

/-- Why a command failed. -/
inductive Trouble where
  | config (text : String)
  | other (text : String)
  /-- An operation was refused, or could not be carried out. -/
  | said (text : String)
  deriving DecidableEq, Repr

namespace Trouble

/-- The error of the operating system that a code stands for; an input or output error for a code
that stands for none. -/
def cause (code : Code) : IoError :=
  let n := -code.toInt
  if -(2 ^ 31) ≤ n ∧ n < 2 ^ 31 then .system (Int32.ofInt n) else .system 5

/-- An operation on a path was refused. -/
def refused (path : String) (code : Code) : Trouble :=
  said s!"{path}: {(cause code).message}"

/-- What is printed of a trouble. -/
def line : Trouble → String
  | config text => "Config \x7b message: " ++ Text.quote text ++ " \x7d"
  | other text => "Other \x7b message: " ++ Text.quote text ++ " \x7d"
  | said text => Text.quote text

end Trouble

/-- What a command has printed, and why it failed if it did. -/
structure Report where
  output : Bytes := []
  trouble : Option Trouble := none

namespace Report

def ofLines (lines : List String) : Report :=
  { output := lines.flatMap fun l => Utf8.encode (l ++ "\n") }

def ofTrouble (trouble : Trouble) : Report :=
  { trouble := some trouble }

/-- The same, after something else has been printed. -/
def after (printed : Bytes) (r : Report) : Report :=
  { r with output := printed ++ r.output }

end Report
end UnionFS.Cli
