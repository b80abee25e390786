import UnionFS.Text.Blank
import UnionFS.Text.Numeral
import UnionFS.Tree.Resolve

/-!
# Peers

The servers a client connects to.  Each is named by a key file, `hostname port key`, in one
directory.  The host name is the server's identity: of two files with the same host the one with the
lesser name counts.
-/

namespace UnionFS

structure Peer where
  hostname : String
  port : UInt16
  key : String
  deriving DecidableEq, Repr

namespace Peer

def address (p : Peer) : String :=
  s!"{p.hostname}:{p.port}"

/-- The peer that a key file names, if it holds three words and the second is a port. -/
def parse? (text : String) : Option Peer :=
  match Text.words Text.isBlank text.toList with
  | [hostname, port, key] =>
    (Text.word16? port).map fun port => ⟨String.ofList hostname, port, String.ofList key⟩
  | _ => none

/-- What a key file's name ends in. -/
def extension : Name := Utf8.encode "agkey"

/-- The peers whose hosts do not occur before them. -/
def firstOfEach (peers : List Peer) : List Peer :=
  peers.foldr (fun p rest => p :: rest.filter (·.hostname != p.hostname)) []

/-- The peers that some files name, in the order of the files' names.  Files with another extension,
that cannot be read or that hold no text of the right form name none. -/
def ofFiles (files : List (Name × Option Bytes)) : List Peer :=
  let keyFiles := files.filter fun (name, _) => Name.extension? (46 : UInt8) name == some extension
  let texts := (keyFiles.mergeSort fun a b => a.1 ≤ b.1).filterMap (·.2.bind Utf8.decode)
  firstOfEach (texts.filterMap parse?)

/-- What is said of a key directory that cannot be read. -/
def cannotRead (directory : String) (cause : IoError) : String :=
  s!"Cannot read key directory {directory}: {cause.message}"

/-- The peers of a key directory. -/
def load (t : Tree) (directory : String) : Except IoError (List Peer) :=
  (t.files directory).map ofFiles

end Peer
end UnionFS
