import UnionFS.Config.Document
import UnionFS.Text.Decimal
import UnionFS.Text.Numeral
import UnionFS.Text.Scan

/-!
# TOML: blanks, texts, numbers and dates

The parts of a TOML document that hold nothing else, as version 1.0 of the format has them.  Of a
number only the count matters that it can be, of a date only that it is one.
-/

namespace UnionFS.Toml

open Scan

/-! ## Blanks and comments -/

def isSpace (c : Char) : Bool := c == ' ' || c == '\t'

/-- A character that may stand in a comment. -/
def isPrintable (c : Char) : Bool := c == '\t' || (0x20 ≤ c.toNat && c.toNat != 0x7F)

def spaces : Scan Unit := do
  let _ ← span isSpace

def newline : Scan Unit :=
  char '\n' <|> word "\r\n"

def comment : Scan Unit := do
  char '#'
  let _ ← span isPrintable

/-- What may stand between the values of an array. -/
def gap : Scan Unit := do
  let _ ← many ((do let _ ← span1 isSpace) <|> newline <|> comment)

/-- The rest of a line with nothing more on it. -/
def lineEnd : Scan Unit := do
  spaces
  let _ ← optional comment
  newline <|> finish

/-! ## Texts -/

/-- So many hexadecimal digits, as the character with that number. -/
def scalar (width : Nat) : Scan (List Char) := do
  let digits ← span fun c => (Text.digitValue? 16 c).isSome
  let form := digits.take width
  guard (form.length == width)
  set (digits.drop width ++ (← get))
  match Text.digits? 16 form with
  | some n => if n.isValidChar then return [Char.ofNat n] else failure
  | none => failure

/-- What follows a backslash in a text. -/
def escaped : Scan (List Char) := do
  match ← only fun _ => true with
  | 'b' => return ['\x08']
  | 't' => return ['\t']
  | 'n' => return ['\n']
  | 'f' => return ['\x0c']
  | 'r' => return ['\r']
  | '"' => return ['"']
  | '\\' => return ['\\']
  | 'u' => scalar 4
  | 'U' => scalar 8
  | _ => failure

/-- A backslash with what follows it. -/
def escape : Scan (List Char) := do
  char '\\'
  escaped

def single (isIn : Char → Bool) : Scan (List Char) := do
  return [← only isIn]

/-- A character between double quotes that stands for itself. -/
def isBasic (c : Char) : Bool := isPrintable c && c != '"' && c != '\\'

/-- A character between single quotes. -/
def isLiteral (c : Char) : Bool := isPrintable c && c != '\''

def quoted (quote : Char) (part : Scan (List Char)) : Scan String := do
  char quote
  let parts ← many part
  char quote
  return String.ofList parts.flatten

def basicText : Scan String := quoted '"' (single isBasic <|> escape)

def literalText : Scan String := quoted '\'' (single isLiteral)

/-- A line end within a text is a line feed. -/
def lineFeed : Scan (List Char) := do
  newline
  return ['\n']

/-- A backslash at the end of a line takes all blanks after it along. -/
def foldedLine : Scan (List Char) := do
  char '\\'
  spaces
  newline
  let _ ← many ((do let _ ← only isSpace) <|> newline)
  return []

/-- One or two quotes, if what comes next is no quote. -/
def innerQuotes (quote : Char) : Scan (List Char) := do
  let quotes ← span1 (· == quote)
  guard (quotes.length ≤ 2)
  return quotes

/-- A text between three quotes.  A line end right after them does not count, and up to two quotes
may stand before the last three. -/
def longText (quote : Char) (part : Scan (List Char)) : Scan String := do
  exactly [quote, quote, quote]
  let _ ← optional newline
  let parts ← many (part <|> innerQuotes quote)
  let quotes ← span (· == quote)
  guard (3 ≤ quotes.length && quotes.length ≤ 5)
  return String.ofList (parts.flatten ++ quotes.drop 3)

def longBasicText : Scan String :=
  longText '"' (single isBasic <|> foldedLine <|> escape <|> lineFeed)

def longLiteralText : Scan String :=
  longText '\'' (single isLiteral <|> lineFeed)

def text : Scan String :=
  longBasicText <|> basicText <|> longLiteralText <|> literalText

/-! ## Numbers -/

def isDigit (base : Nat) (c : Char) : Bool := (Text.digitValue? base c).isSome

/-- Digits of some base, perhaps with single underscores between them. -/
def digits (base : Nat) : Scan (List Char) := do
  let first ← span1 (isDigit base)
  let more ← many (do char '_'; span1 (isDigit base))
  return first ++ more.flatten

/-- Decimal digits, the first of which is zero only if it is the last. -/
def wholeDigits : Scan (List Char) := do
  let found ← digits 10
  guard (found.head? != some '0' || found.length == 1)
  return found

/-- True for a minus sign. -/
def sign : Scan Bool :=
  (do char '-'; return true) <|> (do char '+'; return false) <|> pure false

/-- A whole number has 64 bits and a sign. -/
def ofWhole (negative : Bool) (n : Nat) : Scan Document :=
  if negative then
    if n = 0 then return .number (some 0) true
    else if n ≤ 2 ^ 63 then return .number none true
    else failure
  else if n < 2 ^ 63 then return .number (some (UInt64.ofNat n)) true
  else failure

def valueOf (base : Nat) (form : List Char) : Nat :=
  (Text.digits? base form).getD 0

def decimalWhole : Scan Document := do
  let negative ← sign
  ofWhole negative (valueOf 10 (← wholeDigits))

def basedWhole (mark : String) (base : Nat) : Scan Document := do
  word mark
  ofWhole false (valueOf base (← digits base))

/-- The part of a number from its point or its exponent on: further digits, and the exponent. -/
def fraction : Scan (List Char × Int) := do
  let places ← optional (do char '.'; digits 10)
  let exponent ← optional do
    char 'e' <|> char 'E'
    let negative ← sign
    let n := valueOf 10 (← digits 10)
    return if negative then -(n : Int) else n
  guard (places.isSome || exponent.isSome)
  return (places.getD [], exponent.getD 0)

/-- A number with a point or an exponent is no count.  It may not be too great. -/
def decimalFraction : Scan Document := do
  let negative ← sign
  let first ← wholeDigits
  let (places, exponent) ← fraction
  let d : Decimal := ⟨valueOf 10 (first ++ places), exponent - places.length⟩
  guard (negative || !d.isInfinite)
  return .number none true

def special : Scan Document := do
  let _ ← sign
  word "inf" <|> word "nan"
  return .number none true

def number : Scan Document :=
  decimalFraction <|> special <|> basedWhole "0x" 16 <|> basedWhole "0o" 8 <|> basedWhole "0b" 2
    <|> decimalWhole

/-! ## Dates -/

/-- A number of so many digits between two bounds. -/
def field (width least greatest : Nat) : Scan Nat := do
  let mut form : List Char := []
  for _ in [0:width] do
    form := (← only (isDigit 10)) :: form
  let n := valueOf 10 form.reverse
  guard (least ≤ n && n ≤ greatest)
  return n

def daysIn (year month : Nat) : Nat :=
  if month = 2 then
    if year % 4 = 0 && (year % 100 != 0 || year % 400 = 0) then 29 else 28
  else if month = 4 || month = 6 || month = 9 || month = 11 then 30
  else 31

def day : Scan Unit := do
  let year ← field 4 0 9999
  char '-'
  let month ← field 2 1 12
  char '-'
  let _ ← field 2 1 (daysIn year month)

def minutes : Scan Unit := do
  let _ ← field 2 0 23
  char ':'
  let _ ← field 2 0 59

def time : Scan Unit := do
  minutes
  char ':'
  let _ ← field 2 0 60
  let _ ← optional (do char '.'; let _ ← span1 (isDigit 10))

/-- The distance of a time from universal time. -/
def zone : Scan Unit :=
  (do let _ ← only fun c => c == 'Z' || c == 'z')
    <|> (do let _ ← only fun c => c == '+' || c == '-'; minutes)

def dateOrTime : Scan Document := do
  (do
    day
    let _ ← optional do
      let _ ← only fun c => c == 'T' || c == 't' || c == ' '
      time
      let _ ← optional zone) <|> time
  return .date

/-! ## Values without parts -/

def plain : Scan Document :=
  (do return .text (← text)) <|> (do word "true"; return .truth true)
    <|> (do word "false"; return .truth false) <|> dateOrTime <|> number

end UnionFS.Toml
