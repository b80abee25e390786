/-!
# Server tags

Where several servers hold a file of one name, the copies are told apart by a tag after the name: an
opener (a brace, then a colon), the server's name and a closer (a colon, then a brace).  The same
tag in the last segment of a path addresses the copy on that server.

* `attach` writes a tag and `Address.ofPath` reads the last one of a path's last segment;
* `splitLast_eq_some`: a text is cut at an opener or closer that is really there;
* `splitSegment_append`: a path is its parent and its last segment, and the segment has no slash.
-/

namespace UnionFS

namespace Tag

/-- Cut a text at the last place where `a` is followed by `b`. -/
def splitLast (a b : Char) : List Char → Option (List Char × List Char)
  | x :: y :: rest =>
    match splitLast a b (y :: rest) with
    | some (before, after) => some (x :: before, after)
    | none => if x = a ∧ y = b then some ([], rest) else none
  | _ => none

/-- Cut a text at the last opener. -/
def splitOpener : List Char → Option (List Char × List Char) :=
  splitLast '{' ':'

/-- Cut a text at the last closer. -/
def splitCloser : List Char → Option (List Char × List Char) :=
  splitLast ':' '}'

/-- The parent of a path, with its slash, and the last segment. -/
def splitSegment (path : List Char) : List Char × List Char :=
  ((path.reverse.dropWhile (· != '/')).reverse, (path.reverse.takeWhile (· != '/')).reverse)

/-- `name` with the tag of `server` after it. -/
def attach (name server : String) : String :=
  String.ofList (name.toList ++ ['{', ':'] ++ server.toList ++ [':', '}'])

/-- A name that could be taken for the start of a tag. -/
def hasOpener (name : String) : Bool :=
  (splitOpener name.toList).isSome

theorem splitLast_eq_some {a b : Char} {s u v : List Char} (h : splitLast a b s = some (u, v)) :
    s = u ++ a :: b :: v := by
  fun_induction splitLast a b s generalizing u v with
  | case1 x y rest before after hr ih =>
    cases h
    rw [ih hr, List.cons_append]
  | case2 x y rest hr hc ih => cases h; obtain ⟨rfl, rfl⟩ := hc; rfl
  | case3 => cases h
  | case4 => cases h

theorem splitSegment_append (path : List Char) :
    (splitSegment path).1 ++ (splitSegment path).2 = path := by
  rw [splitSegment, ← List.reverse_append, List.takeWhile_append_dropWhile, List.reverse_reverse]

theorem slash_not_mem_segment (path : List Char) : '/' ∉ (splitSegment path).2 := by
  intro h
  have := List.all_eq_true.mp List.all_takeWhile _ (List.mem_reverse.mp h)
  simp at this

end Tag

/-- Where a path leads: a server, or none in particular, and the path on it. -/
structure Address where
  server : String
  path : String
  deriving DecidableEq, Repr

namespace Address

/-- The last tag of the path's last segment, cut out of it.  The closer is the last of the segment
and the opener the last before it; without both there is no server and the path stays whole. -/
def ofPath (path : String) : Address :=
  let (parent, segment) := Tag.splitSegment path.toList
  match Tag.splitCloser segment with
  | none => ⟨"", path⟩
  | some (head, after) =>
    match Tag.splitOpener head with
    | none => ⟨"", path⟩
    | some (before, server) => ⟨String.ofList server, String.ofList (parent ++ before ++ after)⟩

end Address
end UnionFS
