import UnionFS.Config.Toml.Scalar
import UnionFS.Config.Toml.Table

/-!
# TOML documents

A document is pairs of keys and values, then headers with pairs under them.  Everything that follows
a header up to the next belongs to the table that it opens.
-/

namespace UnionFS.Toml

open Scan

/-- How many arrays and tables in braces may lie within one another. -/
def nesting : Nat := 79

/-- A dotted key has fewer parts than this. -/
def keyLimit : Nat := 80

def isBare (c : Char) : Bool :=
  ('a' ≤ c && c ≤ 'z') || ('A' ≤ c && c ≤ 'Z') || ('0' ≤ c && c ≤ '9') || c == '_' || c == '-'

def keyPart : Scan String := do
  spaces
  let part ← basicText <|> literalText <|> (do return String.ofList (← span1 isBare))
  spaces
  return part

/-- A key, as the path before its last part and that part. -/
def key : Scan (List String × String) := do
  let first ← keyPart
  let parts := first :: (← many do char '.'; keyPart)
  guard (parts.length < keyLimit)
  return (parts.dropLast, parts.getLast?.getD first)

def pair (value : Scan Document) : Scan Entries.Pair := do
  let (path, key) ← key
  char '='
  spaces
  return ⟨path, key, .value (← value)⟩

def array (value : Scan Document) : Scan Document := do
  char '['
  let items ← manyBetween (char ',') do
    gap
    let item ← value
    gap
    return item
  unless items.isEmpty do
    let _ ← optional (char ',')
  gap
  char ']'
  return .list items

def braces (value : Scan Document) : Scan Document := do
  char '{'
  let pairs ← manyBetween (char ',') do
    let p ← pair value
    spaces
    return p
  spaces
  char '}'
  match Entries.addPairs [] pairs with
  | some entries => return (Item.table .headed entries).document
  | none => failure

/-- A value with at most `depth` arrays and braces around its inmost parts. -/
def value : (depth : Nat) → Scan Document
  | 0 => plain
  | depth + 1 => plain <|> array (value depth) <|> braces (value depth)

/-- Empty lines and comments. -/
def emptyLines : Scan Unit := do
  let _ ← many do
    spaces
    newline <|> (do comment; newline <|> finish)
  spaces

def line : Scan Entries.Pair := do
  emptyLines
  let p ← pair (value nesting)
  lineEnd
  return p

def header : Scan (Bool × List String × String) := do
  emptyLines
  (do
    word "[["
    let (path, key) ← key
    word "]]"
    lineEnd
    return (true, path, key)) <|> (do
    char '['
    let (path, key) ← key
    char ']'
    lineEnd
    return (false, path, key))

def part : Scan Entries.Section := do
  let (element, path, key) ← header
  return ⟨element, path, key, ← many line⟩

/-- The pairs before the first header, and all headers with theirs. -/
def parts : Scan (List Entries.Pair × List Entries.Section) := do
  let _ ← optional (char '\uFEFF')
  let pairs ← many line
  let sections ← many part
  emptyLines
  return (pairs, sections)

/-- The table that a TOML document holds. -/
def read (text : String) : Option Document := do
  let (pairs, sections) ← whole parts text
  let entries ← sections.foldlM Entries.addSection (← Entries.addPairs [] pairs)
  return (Item.table .headed entries).document

end UnionFS.Toml
