import UnionFS.Config.Basic
import UnionFS.Config.Json5
import UnionFS.Config.Toml.Reader

/-!
# Loading a configuration

A file whose extension is `json` or `json5` is read as JSON5, any other as TOML.  What it does not
mention keeps its default, and the result has to be valid.  Nothing but the reader of the file
(`Format.read`) knows the two formats.

* `loadBy_ok`: what is loaded is valid, whatever the two formats are;
* `ofDocument?_document`: a configuration is read back from its document.
-/

namespace UnionFS

namespace ServerConfig

def settings : List (Setting ServerConfig) := [
  .text "bind" fun v c => { c with bind := v },
  .text "keyList" fun v c => { c with keyList := v },
  .count "readTimeoutMs" fun v c => { c with readTimeout := v },
  .count "ioTimeoutMs" fun v c => { c with ioTimeout := v },
  .count "maxPathLen" fun v c => { c with maxPath := v },
  .count "maxIoSize" fun v c => { c with maxIo := v }]

end ServerConfig

namespace ClientConfig

def settings : List (Setting ClientConfig) := [
  .text "keyDir" fun v c => { c with keyDir := v },
  .count "heartbeatIntervalMs" fun v c => { c with heartbeatInterval := v },
  .count "reconnectIntervalMs" fun v c => { c with reconnectInterval := v },
  .count "ioTimeoutMs" fun v c => { c with ioTimeout := v },
  .count "maxPathLen" fun v c => { c with maxPath := v },
  .count "maxIoSize" fun v c => { c with maxIo := v },
  .count "maxDirEntries" fun v c => { c with maxEntries := v }]

end ClientConfig

namespace Config

/-- A section is read into the default of that section. -/
def settings (home : Option String) : List (Setting Config) := [
  ⟨"server", fun d c => do
    return { c with server := ← d.readRecord ServerConfig.settings (default home).server }⟩,
  ⟨"client", fun d c => do
    return { c with client := ← d.readRecord ClientConfig.settings (default home).client }⟩]

def ofDocument? (home : Option String) (d : Document) : Option Config :=
  d.readRecord (settings home) (default home)

/-- A configuration as a document, with every setting. -/
def document (c : Config) : Document :=
  let count (n : UInt64) : Document := .number (some n) true
  .table [
    ("server", .table [
      ("bind", .text c.server.bind), ("keyList", .text c.server.keyList),
      ("readTimeoutMs", count c.server.readTimeout), ("ioTimeoutMs", count c.server.ioTimeout),
      ("maxPathLen", count c.server.maxPath), ("maxIoSize", count c.server.maxIo)]),
    ("client", .table [
      ("keyDir", .text c.client.keyDir),
      ("heartbeatIntervalMs", count c.client.heartbeatInterval),
      ("reconnectIntervalMs", count c.client.reconnectInterval),
      ("ioTimeoutMs", count c.client.ioTimeout), ("maxPathLen", count c.client.maxPath),
      ("maxIoSize", count c.client.maxIo), ("maxDirEntries", count c.client.maxEntries)])]

/-- Writing a configuration and reading it back changes nothing, whatever the defaults are. -/
theorem ofDocument?_document (home : Option String) (c : Config) :
    ofDocument? home c.document = some c := by
  rfl

inductive Format where
  | toml
  | json5
  deriving DecidableEq, Repr

namespace Format

def read : Format → String → Option Document
  | toml => Toml.read
  | json5 => Json5.read

/-- The format of a file, by the extension of its name. -/
def ofPath (path : String) : Format :=
  match (Path.fileName? path.toList).bind (Name.extension? '.') with
  | some ['j', 's', 'o', 'n'] | some ['j', 's', 'o', 'n', '5'] => json5
  | _ => toml

end Format

/-- How texts of each format are read as documents. -/
abbrev Reader := Format → String → Option Document

/-- Read a configuration from a text.  It need not be valid. -/
def parseBy (read : Reader) (format : Format) (home : Option String) (text : String) :
    Option Config :=
  (read format text).bind (ofDocument? home)

def parse? : Format → Option String → String → Option Config :=
  parseBy Format.read

/-- Why no configuration was loaded. -/
inductive LoadError where
  | unreadable (path : String) (cause : IoError)
  | malformed
  | invalid (fault : Fault)

namespace LoadError

def message : LoadError → String
  | unreadable path cause => s!"Cannot read {path}: {cause.message}"
  | malformed => "malformed configuration file"
  | invalid fault => fault.message

def toSetup (e : LoadError) : SetupError :=
  .config e.message

end LoadError

/-- Load the configuration of a file that has, or could not be, read. -/
def loadBy (read : Reader) (home : Option String) (path : String)
    (content : Except IoError String) : Except LoadError Config :=
  match content with
  | .error cause => .error (.unreadable path cause)
  | .ok text =>
    match parseBy read (.ofPath path) home text with
    | none => .error .malformed
    | some c =>
      match c.fault? with
      | some fault => .error (.invalid fault)
      | none => .ok c

def load : Option String → String → Except IoError String → Except LoadError Config :=
  loadBy Format.read

theorem loadBy_ok {read : Reader} {home : Option String} {path : String}
    {content : Except IoError String} {c : Config} (h : loadBy read home path content = .ok c) :
    c.fault? = none := by
  unfold loadBy at h
  split at h
  · cases h
  · split at h
    · cases h
    · split at h
      · cases h
      · next hf => cases h; exact hf

end Config
end UnionFS
