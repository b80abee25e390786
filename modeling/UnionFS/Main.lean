import Std.Async.DNS
import Std.Async.Select
import Std.Async.TCP
import Std.Async.Timer
import UnionFS.Cli.Program

/-!
# The command line

The program on this machine: its files, and streams over TCP.  All that is settled here is how the
machine's errors are named.

The machine tells neither the owners nor the permissions of its files, without which none of them
can be exported, so that it listens nowhere.
-/

namespace UnionFS.Machine

open Std.Async Std.Net Client

/-- The number that comes with an error, or zero. -/
def errorNumber : IO.Error → UInt32
  | .alreadyExists _ n _ | .otherError n _ | .resourceBusy n _ | .resourceVanished n _
  | .unsupportedOperation n _ | .hardwareFault n _ | .unsatisfiedConstraints n _
  | .illegalOperation n _ | .protocolError n _ | .timeExpired n _ | .interrupted _ n _
  | .noFileOrDirectory _ n _ | .invalidArgument _ n _ | .permissionDenied _ n _
  | .resourceExhausted _ n _ | .inappropriateType _ n _ | .noSuchThing _ n _ => n
  | .unexpectedEof | .userError _ => 0

/-- Some errors come with their number negated. -/
def cause (e : IO.Error) : IoError :=
  let number := (errorNumber e).toInt32
  if number = 0 then .found .other (toString e)
  else .system (if number < 0 then -number else number)

def caught {α : Type} (action : IO α) : IO (Except IoError α) := do
  try return .ok (← action)
  catch e => return .error (cause e)

/-! ## Files -/

def content (path : String) : IO (Except IoError Bytes) :=
  caught do return (← IO.FS.readBinFile path).toList

def files (path : String) : IO (Except IoError (List (Name × Option Bytes))) :=
  caught do
    let entries ← ((← IO.currentDir) / path).readDir
    entries.toList.mapM fun entry => do
      let bytes ← caught (IO.FS.readBinFile entry.path)
      return (Utf8.encode entry.fileName, bytes.toOption.map (·.toList))

/-! ## Streams -/

/-- A stream, and what has arrived on it but was not taken. -/
structure Socket where
  client : TCP.Socket.Client
  arrived : IO.Ref ByteArray

/-- What the action gives, or nothing if that takes too long. -/
def within {α : Type} (patience : UInt64) (action : Async α) : Async (Option α) :=
  Async.race (some <$> action) do
    sleep (.ofNat patience.toNat)
    return none

/-- The first address of a host. -/
def locate (endpoint : Endpoint) : Async SocketAddress := do
  let found ← DNS.getAddrInfo endpoint.host (toString endpoint.port.toNat)
  match found.toList.head? with
  | some (.v4 addr) => return .v4 { addr, port := endpoint.port }
  | some (.v6 addr) => return .v6 { addr, port := endpoint.port }
  | none => throw (IO.userError s!"no address of {endpoint.host}")

def dial (patience : UInt64) (address : String) : IO (Except DialFailure Socket) := do
  match Endpoint.ofText address with
  | .error e => return .error (.refused e)
  | .ok endpoint =>
    let opened ← caught <| Async.block <| within patience do
      let client ← TCP.Socket.Client.mk
      client.connect (← locate endpoint)
      client.noDelay
      return client
    match opened with
    | .error e => return .error (.refused e)
    | .ok none => return .error .timeout
    | .ok (some client) => return .ok { client, arrived := ← IO.mkRef .empty }

/-- An error on a stream that has been opened. -/
def lost {α : Type} (action : IO (Option α)) : IO (Except WireError α) := do
  match ← caught action with
  | .ok (some a) => return .ok a
  | .ok none => return .error .timeout
  | .error _ => return .error .closed

/-- Wait until so much has arrived, and take it. -/
partial def receive (patience : UInt64) (socket : Socket) (count : Nat) :
    IO (Except WireError Bytes) := do
  let arrived ← socket.arrived.get
  if count ≤ arrived.size then
    socket.arrived.set (arrived.extract count arrived.size)
    return .ok (arrived.extract 0 count).toList
  match ← lost (Async.block (within patience (socket.client.recv? 65536))) with
  | .error e => return .error e
  | .ok none => return .error .closed
  | .ok (some bytes) =>
    socket.arrived.set (arrived ++ bytes)
    receive patience socket count

def carrier (patience : UInt64) : Carrier IO Socket where
  dial := dial patience
  send socket bytes :=
    lost (Async.block (within patience (socket.client.send ⟨bytes.toArray⟩)))
  receive := receive patience
  shutdown socket := lost (Async.block (within patience socket.client.shutdown))
  drop _ := return ()

/-- Why nothing is exported. -/
def unknownOwners : IoError :=
  .found .other "the owners of this machine's files are not known"

def host : IO (Cli.Host IO Socket) := do
  return {
    home := ← IO.getEnv "HOME"
    network := fun config => carrier config.ioTimeout
    content, files
    listen := fun _ _ _ => return .error unknownOwners }

end UnionFS.Machine

def main (words : List String) : IO UInt32 := do
  let exit ← UnionFS.Cli.run (← UnionFS.Machine.host) words
  (← IO.getStdout).write ⟨exit.output.toArray⟩
  IO.eprint exit.errors
  return UInt32.ofNat exit.status
