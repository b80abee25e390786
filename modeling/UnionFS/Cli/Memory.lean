import UnionFS.Cli.Program
import UnionFS.Network.Basic

/-!
# The program on a network in memory

The tree of the network is also the program's own.  Its machine is on no other network; where it can
listen, listening ends at once.
-/

namespace UnionFS.Cli

def memoryHost (home : Option String) : Host (StateM Network) Nat where
  home
  network config := Network.carrier config.ioTimeout
  content path := fun n => (n.tree.contentOf path, n)
  files path := fun n => (n.tree.files path, n)
  listen endpoint _ _ := fun n =>
    ((endpoint.refusal? n.tree.privileged).elim (.ok ()) .error, n)

/-- Run the program with its home directory in the tree of a network. -/
def runOn (n : Network) (home : Option String) (words : List String) : Exit × Network :=
  (run (memoryHost home) words).run n

end UnionFS.Cli
