import UnionFS.Text.Blank
import UnionFS.Tree.Resolve

/-!
# Authorized keys

A server's list of keys, one on a line with the directory it mounts and the account it is bound to:
`root user key`, with blanks or commas between them.  Lines of any other form are passed over.

* `AuthorizedKeys.parse_append_line`: lines do not influence one another;
* `AuthorizedKeys.find?_some`: a key is found only where it stands.
-/

namespace UnionFS

structure AuthorizedKey where
  root : String
  user : String
  key : String
  deriving DecidableEq, Repr

abbrev AuthorizedKeys := List AuthorizedKey

namespace AuthorizedKey

/-- Blanks and commas stand between the fields of a line. -/
def isSeparator (c : Char) : Bool :=
  c == ',' || Text.isBlank c

/-- The key on a line: none on an empty line, a comment, or one without exactly three fields. -/
def ofLine? (line : List Char) : Option AuthorizedKey :=
  let line := Text.trim line
  if line.head? == some '#' then none
  else match Text.words isSeparator line with
    | [root, user, key] => some ⟨String.ofList root, String.ofList user, String.ofList key⟩
    | _ => none

end AuthorizedKey

namespace AuthorizedKeys

/-- The keys of a list in their order. -/
def parse (text : String) : AuthorizedKeys :=
  (Text.lines text.toList).filterMap AuthorizedKey.ofLine?

/-- The first entry with this key. -/
def find? (keys : AuthorizedKeys) (key : String) : Option AuthorizedKey :=
  List.find? (·.key == key) keys

def load (t : Tree) (path : String) : Except IoError AuthorizedKeys :=
  (t.textOf path).map parse

theorem find?_some {keys : AuthorizedKeys} {key : String} {entry : AuthorizedKey}
    (h : keys.find? key = some entry) : entry ∈ keys ∧ entry.key = key := by
  refine ⟨List.mem_of_find?_eq_some h, ?_⟩
  simpa using List.find?_some h

/-- Two lists one after the other, each on lines of its own. -/
theorem parse_append_line (a b : String) : parse (a ++ "\n" ++ b) = parse a ++ parse b := by
  simp [parse, Text.lines, List.append_assoc, Text.pieces_append]

end AuthorizedKeys
end UnionFS
