import UnionFS.Bytes

/-!
# Documents

What a configuration file says, whatever its format: a value made of numbers, texts, lists and
tables.  A record of settings is read from a document: from a table by the settings' names, or from
a list by their places.  A setting that is not there keeps its default, and what names no setting is
passed over.

* `readRecord_nil`: an empty table changes nothing.
-/

namespace UnionFS

inductive Document where
  | null
  | truth (value : Bool)
  /-- A number: the count that it stands for, if it can be one, and whether it has a value where no
  count is asked for. -/
  | number (count : Option UInt64) (plain : Bool)
  | text (value : String)
  /-- What has the form of a value but stands for none. -/
  | void
  /-- A date or a time of day. -/
  | date
  | list (items : List Document)
  | table (entries : List (String × Document))

namespace Document

mutual

/-- Everything in the document has a value. -/
def isSound : Document → Bool
  | void => false
  | number _ plain => plain
  | list items => allSound items
  | table entries => entriesSound entries
  | _ => true

def allSound : List Document → Bool
  | [] => true
  | d :: rest => d.isSound && allSound rest

def entriesSound : List (String × Document) → Bool
  | [] => true
  | (_, d) :: rest => d.isSound && entriesSound rest

end

def text? : Document → Option String
  | text value => some value
  | _ => none

def count? : Document → Option UInt64
  | number count _ => count
  | _ => none

end Document

/-- One setting of a record: its name, and how a document changes it. -/
structure Setting (C : Type) where
  name : String
  read : Document → C → Option C

namespace Setting

variable {C D : Type}

def text (name : String) (put : String → C → C) : Setting C :=
  ⟨name, fun d c => d.text?.map (put · c)⟩

def count (name : String) (put : UInt64 → C → C) : Setting C :=
  ⟨name, fun d c => d.count?.map (put · c)⟩

end Setting

namespace Document

variable {C : Type}

/-- Change a record by one entry of a table. -/
def readEntry (settings : List (Setting C)) (c : C) (entry : String × Document) : Option C :=
  match settings.find? (·.name == entry.1) with
  | some setting => setting.read entry.2 c
  | none => if entry.2.isSound then some c else none

/-- No setting is named twice. -/
def namesOnce (settings : List (Setting C)) (entries : List (String × Document)) : Bool :=
  settings.all fun s => (entries.filter (·.1 == s.name)).length ≤ 1

/-- Change a record as a document says.  A date has no entry that is a setting. -/
def readRecord (settings : List (Setting C)) (start : C) : Document → Option C
  | table entries =>
    if namesOnce settings entries then entries.foldlM (readEntry settings) start else none
  | list items => (settings.zip items).foldlM (fun c (setting, d) => setting.read d c) start
  | date => some start
  | _ => none

theorem readRecord_nil (settings : List (Setting C)) (start : C) :
    readRecord settings start (table []) = some start := by
  simp [readRecord, namesOnce]

end Document
end UnionFS
