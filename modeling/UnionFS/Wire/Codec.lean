import UnionFS.Wire.Command
import UnionFS.Wire.Dialogue
import UnionFS.Wire.Stat
import UnionFS.Text.Utf8

/-!
# Fields on the wire

How each kind of field is written and read.  Numbers have a fixed width and their most significant
byte first; a text is its length in bytes and then its UTF-8 form; a record is its fields in order;
the token of a handshake has a fixed width and ends at its first zero byte.
-/

namespace UnionFS.Wire

variable {σ : Type}

def ofCommand (command : Command) : Bytes :=
  Bytes.ofNat 2 command.word.toNat

def ofCode (code : Code) : Bytes :=
  Bytes.ofNat 8 code.toUInt64.toNat

def ofSize (size : UInt64) : Bytes :=
  Bytes.ofNat 8 size.toNat

def ofMask (mask : UInt32) : Bytes :=
  Bytes.ofNat 4 mask.toNat

def ofText (text : String) : Bytes :=
  let form := Utf8.encode text
  ofSize (UInt64.ofNat form.length) ++ form

def ofStat (stat : Stat) : Bytes :=
  ofSize stat.dev ++ ofMask stat.mode ++ ofSize stat.size ++ ofCode stat.atime ++ ofCode stat.mtime
    ++ ofCode stat.ctime

def ofEntry (entry : Entry) : Bytes :=
  ofText entry.name ++ ofStat entry.stat

/-- The width of a handshake's token. -/
def tokenWidth : Nat := 512

/-- The token of a key: the key cut to the token's width, or filled up with zeros. -/
def ofKey (key : String) : Bytes :=
  let form := (Utf8.encode key).take tokenWidth
  form ++ List.replicate (tokenWidth - form.length) 0

/-- The bytes of a key in a token end at the first zero. -/
def keyBytes (token : Bytes) : Bytes :=
  token.takeWhile (· != 0)

def readWord : Dialogue σ UInt16 := do
  return UInt16.ofNat (Bytes.toNat (← .take 2))

/-- A number that is no command has been read, so that the next message can be. -/
def readCommand : Dialogue σ Command := do
  let word ← readWord
  match Command.ofWord? word with
  | some command => return command
  | none => .fail (.unknownCommand word)

def readSize : Dialogue σ UInt64 := do
  return UInt64.ofNat (Bytes.toNat (← .take 8))

def readCode : Dialogue σ Code := do
  return (← readSize).toInt64

def readMask : Dialogue σ UInt32 := do
  return UInt32.ofNat (Bytes.toNat (← .take 4))

def ofUtf8 (bytes : Bytes) : Dialogue σ String :=
  match Utf8.decode bytes with
  | some text => .done text
  | none => .fail .notUtf8

/-- A block of `length` bytes, refused unread if longer than `limit`. -/
def readBlock (length limit : UInt64) : Dialogue σ Bytes :=
  if length > limit then .fail (.lengthExceeded .payload length limit)
  else .take length.toNat

/-- A text, refused after its length if that is above `limit`. -/
def readText (limit : UInt64) : Dialogue σ String := do
  let length ← readSize
  if length > limit then .fail (.lengthExceeded .name length limit)
  else ofUtf8 (← readBlock length limit)

def readStat : Dialogue σ Stat := do
  let dev ← readSize
  let mode ← readMask
  let size ← readSize
  let atime ← readCode
  let mtime ← readCode
  let ctime ← readCode
  return { dev, mode, size, atime, mtime, ctime }

def readEntry (limit : UInt64) : Dialogue σ Entry := do
  let name ← readText limit
  let stat ← readStat
  return { name, stat }

def readEntries (limit : UInt64) : Nat → Dialogue σ (List Entry)
  | 0 => return []
  | count + 1 => do
    let entry ← readEntry limit
    return entry :: (← readEntries limit count)

def readKey : Dialogue σ String := do
  ofUtf8 (keyBytes (← .take tokenWidth))

end UnionFS.Wire
