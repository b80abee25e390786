import UnionFS.Config.Document
import UnionFS.Text.Decimal
import UnionFS.Text.Letter
import UnionFS.Text.Numeral
import UnionFS.Text.Scan

/-!
# JSON5 documents

A number is rounded as a binary number would be, cut down to its whole part and brought into the
range of a count: a negative one counts as zero, one that is too great as the greatest.  Where no
count is asked for a whole number has 64 bits and a sign.  Hexadecimal numbers have 32 bits and no
sign.
-/

namespace UnionFS.Json5

open Scan

/-! ## Blanks and comments -/

def isLineEnd (c : Char) : Bool :=
  c == '\n' || c == '\r' || c == '\u2028' || c == '\u2029'

/-- Line ends, tabulators and the characters of the category `Zs`. -/
def isSpace (c : Char) : Bool :=
  let n := c.toNat
  isLineEnd c || n == 0x09 || n == 0x0B || n == 0x0C || n == 0x20 || n == 0xA0 || n == 0x1680
    || (0x2000 ≤ n && n ≤ 0x200A) || n == 0x202F || n == 0x205F || n == 0x3000 || n == 0xFEFF

/-- The text after the next end of a comment. -/
def afterComment : List Char → Option (List Char)
  | '*' :: '/' :: rest => some rest
  | _ :: rest => afterComment rest
  | [] => none

def longComment : Scan Unit := do
  word "/*"
  match afterComment (← get) with
  | some rest => set rest
  | none => failure

def lineComment : Scan Unit := do
  word "//"
  let _ ← span fun c => !isLineEnd c

def gap : Scan Unit := do
  let _ ← many ((do let _ ← span1 isSpace) <|> longComment <|> lineComment)

/-- A character, with any blanks before it. -/
def mark (c : Char) : Scan Unit := do
  gap
  char c

/-! ## Texts -/

/-- A part of a text: a character, or half of one by its number. -/
inductive Piece where
  | char (c : Char)
  | unit (n : Nat)

def isLead (n : Nat) : Bool := 0xD800 ≤ n && n ≤ 0xDBFF
def isTrail (n : Nat) : Bool := 0xDC00 ≤ n && n ≤ 0xDFFF

/-- The text of its parts, in which the halves of a character stand together. -/
def join : List Piece → Option (List Char)
  | [] => some []
  | .char c :: rest => (join rest).map (c :: ·)
  | .unit n :: .unit m :: rest =>
    if isLead n then
      if isTrail m then
        (join rest).map (Char.ofNat (0x10000 + (n - 0xD800) * 0x400 + (m - 0xDC00)) :: ·)
      else none
    else if isTrail n then none
    else (join (.unit m :: rest)).map (Char.ofNat n :: ·)
  | .unit n :: rest =>
    if isLead n || isTrail n then none else (join rest).map (Char.ofNat n :: ·)

/-- So many hexadecimal digits. -/
def hex (width : Nat) : Scan Nat := do
  let mut form : List Char := []
  for _ in [0:width] do
    form := (← only fun c => (Text.digitValue? 16 c).isSome) :: form
  return (Text.digits? 16 form.reverse).getD 0

/-- What follows a backslash in a text.  A line end there stands for nothing. -/
def escaped : Scan (List Piece) := do
  let c ← only fun _ => true
  match c with
  | 'b' => return [.char '\x08']
  | 'f' => return [.char '\x0c']
  | 'n' => return [.char '\n']
  | 'r' => return [.char '\r']
  | 't' => return [.char '\t']
  | 'v' => return [.char '\x0b']
  | '0' => return [.char '\x00']
  | 'x' => return [.unit (← hex 2)]
  | 'u' => return [.unit (← hex 4)]
  | '\r' =>
    let _ ← optional (Scan.char '\n')
    return []
  | _ =>
    if isLineEnd c then return []
    else if c.isDigit then failure
    else return [.char c]

def piece (isIn : Char → Bool) : Scan (List Piece) := do
  return [.char (← only isIn)]

def quoted (quote : Char) : Scan (List Piece) := do
  char quote
  let parts ← many <|
    (do char '\\'; escaped) <|> piece fun c => c != quote && c != '\\' && !isLineEnd c
  char quote
  return parts.flatten

def text : Scan (List Piece) := quoted '"' <|> quoted '\''

def escapedUnit : Scan (List Piece) := do
  word "\\u"
  return [.unit (← hex 4)]

def isNameStart (c : Char) : Bool := Text.isLetter c || c == '$' || c == '_'

def isNamePart (c : Char) : Bool :=
  isNameStart c || Text.isLetterFollower c || c == '\u200C' || c == '\u200D'

def name : Scan (List Piece) := do
  let first ← piece isNameStart <|> escapedUnit
  let more ← many (piece isNamePart <|> escapedUnit)
  return first ++ more.flatten

/-! ## Numbers -/

/-- A number of bits too great counts as the greatest. -/
def countOf (n : Nat) : UInt64 := UInt64.ofNat (min n (2 ^ 64 - 1))

inductive Sign where
  | none
  | plus
  | minus
  deriving DecidableEq, Repr

def sign : Scan Sign :=
  (do char '+'; return .plus) <|> (do char '-'; return .minus) <|> pure .none

def isDecimal (c : Char) : Bool := c.isDigit

def valueOf (form : List Char) : Nat := (Text.digits? 10 form).getD 0

def hexNumber (s : Sign) : Scan Document := do
  word "0x" <|> word "0X"
  let form ← span1 fun c => (Text.digitValue? 16 c).isSome
  let n := (Text.digits? 16 form).getD 0
  return if s = .none && n < 2 ^ 32 then .number (some (countOf n)) true else .void

/-- Digits before the point, of which the first is zero only if it is the last. -/
def wholeDigits : Scan (List Char) :=
  (do char '0'; return ['0'])
    <|> (do return (← only fun c => c.isDigit && c != '0') :: (← span isDecimal))

def exponent : Scan Int := do
  char 'e' <|> char 'E'
  let s ← sign
  let n := valueOf (← span1 isDecimal)
  return if s = .minus then -(n : Int) else n

/-- The digits before the point, those after it if there is one, and the exponent if there is one.
-/
def decimalForm : Scan (List Char × Option (List Char) × Option Int) :=
  (do
    let first ← wholeDigits
    char '.'
    return (first, some (← span isDecimal), ← optional exponent)) <|> (do
    char '.'
    return ([], some (← span1 isDecimal), ← optional exponent)) <|> (do
    return (← wholeDigits, none, ← optional exponent))

/-- A whole number as it may stand where no count is asked for. -/
def isSmall (s : Sign) (n : Nat) : Bool :=
  if s = .minus then n ≤ 2 ^ 63 else n < 2 ^ 63

def decimal (s : Sign) : Scan Document := do
  let (first, places, power) ← decimalForm
  let after := places.getD []
  let d : Decimal := ⟨valueOf (first ++ after), power.getD 0 - after.length⟩
  if d.isInfinite then return .void
  else
    let count := if s = .minus then 0 else countOf d.whole
    return .number (some count) (places.isSome || power.isSome || isSmall s d.mantissa)

def special (s : Sign) : Scan Document :=
  (do
    word "Infinity"
    return match s with
      | .none => .number (some (countOf (2 ^ 64 - 1))) true
      | .minus => .number (some 0) true
      | .plus => .void) <|> (do
    word "NaN"
    return if s = .plus then .void else .number (some 0) true)

def number : Scan Document := do
  let s ← sign
  hexNumber s <|> decimal s <|> special s

/-! ## Values -/

/-- The text of its parts; none if a half of a character stands alone. -/
def textOf (pieces : List Piece) : Option String :=
  (join pieces).map String.ofList

/-- A key, as far as its parts are a text. -/
def key : Scan (Option String) := do
  gap
  return textOf (← name <|> text)

/-- Parts with commas between them, and perhaps one after the last. -/
def commas {α : Type} (part : Scan α) : Scan (List α) := do
  let parts ← manyBetween (mark ',') part
  unless parts.isEmpty do
    let _ ← optional (mark ',')
  return parts

def plain : Scan Document :=
  (do word "null"; return .null) <|> (do word "true"; return .truth true)
    <|> (do word "false"; return .truth false)
    <|> (do return (textOf (← text)).elim .void .text) <|> number

/-- A table.  If one of its keys is no text the whole of it stands for nothing. -/
def object (value : Scan Document) : Scan Document := do
  char '{'
  let entries ← commas do
    let key ← key
    mark ':'
    return (key, ← value)
  mark '}'
  let named := entries.mapM fun (key, d) => do return ((← key), d)
  return named.elim .void .table

def array (value : Scan Document) : Scan Document := do
  char '['
  let items ← commas value
  mark ']'
  return .list items

/-- A value with fewer than `depth` brackets and braces around its inmost parts. -/
def value : (depth : Nat) → Scan Document
  | 0 => failure
  | depth + 1 => do
    gap
    plain <|> object (value depth) <|> array (value depth)

/-- The value that a JSON5 document holds. -/
def read (text : String) : Option Document :=
  whole (do let d ← value (text.length + 1); gap; return d) text

end UnionFS.Json5
