import UnionFS.Config.Basic
import UnionFS.Export.Basic
import UnionFS.Keys.Authorized
import UnionFS.Wire.Codec

/-!
# Logging in

The server's end of a handshake.  The first entry of the key list with the client's key decides: its
account has to exist and its mount has to be a directory.  The answer is one command, and only
acceptance gives the client an export.
-/

namespace UnionFS

/-- What every session of one server shares. -/
structure Gate where
  keys : AuthorizedKeys
  accounts : Accounts
  config : ServerConfig

namespace Gate

/-- What a key opens. -/
def decide (g : Gate) (t : Tree) (key : String) : Except HandshakeFailure Export :=
  match g.keys.find? key with
  | none => .error .invalidKey
  | some entry =>
    match g.accounts.find? entry.user with
    | none => .error .userNotFound
    | some user =>
      match t.find (Utf8.encode entry.root) with
      | .ok root =>
        if t.isDirectory root then
          .ok { root, user, maxPath := g.config.maxPath, maxIo := g.config.maxIo }
        else .error .mountNotFound
      | .error _ => .error .mountNotFound

/-- The command that answers a decision. -/
def reply : Except HandshakeFailure Export → Command
  | .ok _ => .accept
  | .error failure => failure.reply

/-- Read a token, decide and answer. -/
def login (g : Gate) : Dialogue Tree (Except HandshakeFailure Export) := do
  let key ← Wire.readKey
  let decision ← .inspect (g.decide · key)
  .say (Wire.ofCommand (reply decision))
  return decision

end Gate
end UnionFS
