import UnionFS.Cli.Command
import UnionFS.Cli.Help
import UnionFS.Client.Fleet
import UnionFS.Config.Load
import UnionFS.Endpoint
import UnionFS.Keys.Authorized

/-!
# The program

A command line is read, the configuration loaded, and one command carried out.  The program does not
say what it runs on: it is given a host with files, a network and a place to listen.
-/

namespace UnionFS.Cli

open Client

/-- What the program runs on. -/
structure Host (m : Type → Type) (L : Type) where
  /-- The home directory, if there is one. -/
  home : Option String
  /-- The network, for a client with such settings. -/
  network : ClientConfig → Carrier m L
  content : (path : String) → m (Except IoError Bytes)
  /-- The children of a directory, each with its content if that can be read. -/
  files : (path : String) → m (Except IoError (List (Name × Option Bytes)))
  /-- Serve sessions for ever, or find that nothing can be heard there. -/
  listen : Endpoint → ServerConfig → AuthorizedKeys → m (Except IoError Unit)

/-- How a run of the program ended. -/
structure Exit where
  status : Nat
  output : Bytes := []
  errors : String := ""

namespace Exit

/-- A report has been given; what was printed before a trouble stays printed. -/
def ofReport (r : Report) : Exit :=
  match r.trouble with
  | none => { status := 0, output := r.output }
  | some trouble => { status := 1, output := r.output, errors := s!"Error: {trouble.line}\n" }

/-- The version of the program. -/
def version : String := "AgFS 0.1.0"

/-- The command line was not one that is carried out. -/
def ofUsage : Usage → Exit
  | .help topic => { status := 0, output := Utf8.encode (Help.text topic) }
  | .version => { status := 0, output := Utf8.encode (version ++ "\n") }
  | .wrong => { status := 2, errors := s!"Usage: {Help.programLine}\n" }

end Exit

variable {m : Type → Type} [Monad m] {L : Type}

namespace Host

/-- A file as text. -/
def text (host : Host m L) (path : String) : m (Except IoError String) := do
  match ← host.content path with
  | .error cause => return .error cause
  | .ok bytes =>
    match Utf8.decode bytes with
    | some text => return .ok text
    | none => return .error .notText

end Host

/-- The configuration of a command line: that of its file, or else the default, with the key
directory that it names. -/
def configure (host : Host m L) (i : Invocation) : m (Except Trouble Config) := do
  let loaded ← match i.config with
    | none => pure (.ok (Config.default host.home))
    | some path => do pure (Config.load host.home path (← host.text path))
  match loaded with
  | .error e => return .error (.config e.message)
  | .ok c =>
    match i.keyDir with
    | some dir => return .ok { c with client.keyDir := dir }
    | none => return .ok c

/-- Export what the key list names, as long as anybody listens. -/
def serve (host : Host m L) (c : Config) (bind keys : Option String) : m Report := do
  let c := { c with
    server.bind := bind.getD c.server.bind, server.keyList := keys.getD c.server.keyList }
  match c.fault? with
  | some fault => return .ofTrouble (.config fault.message)
  | none =>
    match ← host.text c.server.keyList with
    | .error cause =>
      return .ofTrouble (.said s!"Cannot read key list {c.server.keyList}: {cause.message}")
    | .ok text =>
      let listening ← match Endpoint.ofText c.server.bind with
        | .error cause => pure (.error cause)
        | .ok endpoint => host.listen endpoint c.server (.parse text)
      match listening with
      | .error cause => return .ofTrouble (.other (Endpoint.cannotListen c.server.bind cause))
      | .ok () => return {}

/-- The peers of the key directory. -/
def loadPeers (host : Host m L) (config : ClientConfig) : m (Except Trouble (List Peer)) := do
  match ← host.files config.keyDir with
  | .error cause => return .error (.config (Peer.cannotRead config.keyDir cause))
  | .ok files => return .ok (Peer.ofFiles files)

/-- Connect to the peers, carry out a command on their union and say goodbye to all of them. -/
def onUnion (host : Host m L) (config : ClientConfig)
    (prepare : m (Except Trouble (Union → UnionPlan Report))) : m Report := do
  match ← loadPeers host config with
  | .error trouble => return .ofTrouble trouble
  | .ok peers =>
    let net := host.network config
    let (u, fleet) ← Fleet.start net config peers
    let plan : UnionPlan Report := match ← prepare with
      | .ok command => command u
      | .error trouble => return .ofTrouble trouble
    let (report, _) ← ((do let r ← plan; let _ ← u.shutdown; return r : UnionPlan Report).run
      (Fleet.answer net)).run fleet
    return report

/-- Carry out a command. -/
def perform (host : Host m L) (c : Config) : Command → m Report
  | .serve bind keys => serve host c bind keys
  | .stat path json => onUnion host c.client (return .ok (stat · path json))
  | .list path json => onUnion host c.client (return .ok (list · path json))
  | .cat path => onUnion host c.client (return .ok (cat · path c.client.maxIo))
  | .put source path => onUnion host c.client do
    match ← host.content source with
    | .ok data => return .ok (put · path data)
    | .error cause => return .error (.said s!"{source}: {cause.message}")

/-- Run the program on the words of a command line. -/
def run (host : Host m L) (words : List String) : m Exit := do
  match Invocation.read words with
  | .error usage => return .ofUsage usage
  | .ok i =>
    match ← configure host i with
    | .error trouble => return .ofReport (.ofTrouble trouble)
    | .ok c => return .ofReport (← perform host c i.command)

end UnionFS.Cli
