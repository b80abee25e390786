import UnionFS.Config.Document

/-!
# Tables in the making

A TOML document builds its tables piece by piece, and says more than once where a table lies: in its
own header, in the headers of its children and in dotted keys.  A table may have only one header,
and dotted keys may only add to a table that dotted keys made.
-/

namespace UnionFS.Toml

/-- What made a table. -/
inductive Origin where
  /-- A header of its own, or braces. -/
  | headed
  /-- The header of a table inside it. -/
  | passed
  /-- A dotted key. -/
  | dotted
  deriving DecidableEq, Repr

inductive Item where
  /-- A value that is complete, such as a table in braces. -/
  | value (value : Document)
  | table (origin : Origin) (entries : List (String × Item))
  /-- An array that grows by one table with each of its headers. -/
  | tables (elements : List (List (String × Item)))

abbrev Entries := List (String × Item)

namespace Item

mutual

def document : Item → Document
  | value d => d
  | table _ entries => .table (entriesDocument entries)
  | tables elements => .list (elementsDocument elements)

def entriesDocument : List (String × Item) → List (String × Document)
  | [] => []
  | (key, item) :: rest => (key, item.document) :: entriesDocument rest

def elementsDocument : List (List (String × Item)) → List Document
  | [] => []
  | entries :: rest => .table (entriesDocument entries) :: elementsDocument rest

end

end Item

namespace Entries

/-- Put an item at a key, in place of the one that is there. -/
def put (entries : Entries) (key : String) (item : Item) : Entries :=
  if (entries.lookup key).isSome then
    entries.map fun e => if e.1 == key then (key, item) else e
  else entries ++ [(key, item)]

/-- Change the table at a path, which is made if it is missing.  A dotted key does not lead into a
table with a header, and in an array of tables every path leads into the last. -/
def descend (dotted : Bool) (change : Origin → Entries → Option Entries) :
    List String → Origin → Entries → Option Entries
  | [], origin, entries => change origin entries
  | key :: path, _, entries =>
    match entries.lookup key with
    | none => do
      let origin : Origin := if dotted then .dotted else .passed
      return entries.put key (.table origin (← descend dotted change path origin []))
    | some (.value _) => none
    | some (.table origin inner) => do
      if dotted && origin == .headed then none
      return entries.put key (.table origin (← descend dotted change path origin inner))
    | some (.tables elements) => do
      let last ← descend dotted change path .headed (elements.getLast?.getD [])
      return entries.put key (.tables (elements.dropLast ++ [last]))

/-- Give a value to a new key of a table.  Behind a dotted path that has to be a table made by
dotted keys. -/
def insert (path : List String) (key : String) (item : Item) (origin : Origin)
    (entries : Entries) : Option Entries :=
  if (origin == .dotted) == path.isEmpty then none
  else if (entries.lookup key).isSome then none
  else some (entries.put key item)

/-- A pair of a key, perhaps dotted, and its value. -/
structure Pair where
  path : List String
  key : String
  item : Item

/-- Add a pair to a table that has a header or braces. -/
def addPair (entries : Entries) (p : Pair) : Option Entries :=
  descend true (insert p.path p.key p.item) p.path .headed entries

def addPairs (entries : Entries) (pairs : List Pair) : Option Entries :=
  pairs.foldlM addPair entries

/-- What the header of a table opens: a table that is new, or so far was only passed. -/
def openTable (key : String) (pairs : List Pair) (_ : Origin) (entries : Entries) :
    Option Entries := do
  let start : Entries ← match entries.lookup key with
    | none => some []
    | some (.table .passed inner) => some inner
    | some _ => none
  return entries.put key (.table .headed (← addPairs start pairs))

/-- What the header of an array's table opens: the next element of an array made by such headers. -/
def openElement (key : String) (pairs : List Pair) (_ : Origin) (entries : Entries) :
    Option Entries := do
  let elements ← match entries.lookup key with
    | none => some []
    | some (.tables elements) => some elements
    | some _ => none
  return entries.put key (.tables (elements ++ [← addPairs [] pairs]))

/-- A header and the pairs under it. -/
structure Section where
  /-- The header is that of an array's table. -/
  element : Bool
  path : List String
  key : String
  pairs : List Pair

def addSection (entries : Entries) (s : Section) : Option Entries :=
  if s.element then descend false (openElement s.key s.pairs) s.path .headed entries
  else descend false (openTable s.key s.pairs) s.path .headed entries

end Entries
end UnionFS.Toml
