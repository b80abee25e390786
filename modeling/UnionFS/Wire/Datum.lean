import UnionFS.Wire.Codec

/-!
# Sequences of fields

A field of any kind as one value, so that whole messages can be written and read as lists.
-/

namespace UnionFS.Wire

/-- The value of one field. -/
inductive Datum where
  | command (command : Command)
  | code (code : Code)
  | size (size : UInt64)
  | mask (mask : UInt32)
  | text (text : String)
  | stat (stat : Stat)
  | key (key : String)
  | block (bytes : Bytes)

/-- Which kind of field is due, with the limits its reader needs. -/
inductive Kind where
  | command
  | code
  | size
  | mask
  | text (limit : UInt64)
  | stat
  | key
  | block (length limit : UInt64)

namespace Datum

/-- The written form of a field. -/
def bytes : Datum → Bytes
  | command c => ofCommand c
  | code c => ofCode c
  | size n => ofSize n
  | mask m => ofMask m
  | text t => ofText t
  | stat s => ofStat s
  | key k => ofKey k
  | block b => b

/-- How many bytes the writer of a field says that it has written. -/
def count : Datum → Nat
  | command _ => 2
  | code _ | size _ => 8
  | mask _ => 4
  | text t => 8 + (Utf8.encode t).length
  | stat _ => 8 + 4 + 8 + 8 + 8 + 8
  | key _ => tokenWidth
  | block b => b.length

end Datum

namespace Kind

variable {σ : Type}

def read : Kind → Dialogue σ Datum
  | command => return .command (← readCommand)
  | code => return .code (← readCode)
  | size => return .size (← readSize)
  | mask => return .mask (← readMask)
  | text limit => return .text (← readText limit)
  | stat => return .stat (← readStat)
  | key => return .key (← readKey)
  | block length limit => return .block (← readBlock length limit)

/-- One field read, with how many bytes had been read by then. -/
structure Reading where
  datum : Datum
  position : Nat

/-- Read fields one after another until an error after which the stream cannot be trusted. -/
def readEach (kinds : List Kind) (input : Bytes) : List (Except WireError Reading) :=
  go kinds input 0
where
  go : List Kind → Bytes → Nat → List (Except WireError Reading)
    | [], _, _ => []
    | kind :: kinds, input, position =>
      let t := kind.read.runOn input ()
      let position := position + (input.length - t.unread.length)
      match t.result with
      | .ok datum => .ok ⟨datum, position⟩ :: go kinds t.unread position
      | .error e => .error e :: if e.isFatal then [] else go kinds t.unread position

end Kind
end UnionFS.Wire
