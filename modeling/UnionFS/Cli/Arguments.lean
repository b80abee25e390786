/-!
# Arguments

The words of a command line, read one after another.  Options of the program stand before the
command's name and those of the command behind it.  A value follows its option, or is part of the
same word; after two dashes alone every word is an operand.

* `read_append_error`: what is wrong in the first words stays wrong, whatever follows.
-/

namespace UnionFS.Cli

structure Choice where
  name : String
  short : Option Char := none
  /-- What its value is called, if it takes one. -/
  value : Option String := none
  about : String

def Choice.takesValue (c : Choice) : Bool := c.value.isSome

/-- What one command accepts. -/
structure Form where
  name : String
  about : String
  options : List Choice := []
  /-- Its operands, each with what it stands for. -/
  operands : List (String × String) := []

/-- What help is asked about. -/
inductive Topic where
  | program
  | command (form : Form)
  /-- The command that gives help. -/
  | help

/-- Why a command line is not carried out. -/
inductive Usage where
  | help (topic : Topic)
  | version
  | wrong

def helpChoice : Choice := { name := "help", short := some 'h', about := "Print help" }
def versionChoice : Choice := { name := "version", short := some 'V', about := "Print version" }
def jsonChoice : Choice := { name := "json", about := "Print JSON" }

/-- The options of the program itself. -/
def programOptions : List Choice := [
  { name := "config", short := some 'c', value := some "CONFIG"
    about := "Configuration file (TOML or JSON5)" },
  { name := "key-dir", short := some 'k', value := some "DIR"
    about := "Directory with *.agkey server files" },
  { name := "verbose", short := some 'v', about := "Debug logging" }, helpChoice, versionChoice]

def pathOperand : String × String := ("path", "Path in the aggregated tree")

def forms : List Form := [
  { name := "serve", about := "Export directories listed in the key list"
    options := [
      { name := "bind", value := some "ADDR", about := "Listen address" },
      { name := "keys", value := some "FILE", about := "Authorized key list" }, helpChoice] },
  { name := "stat", about := "Show file attributes", options := [jsonChoice, helpChoice]
    operands := [pathOperand] },
  { name := "ls", about := "List a directory", options := [jsonChoice, helpChoice]
    operands := [pathOperand] },
  { name := "cat", about := "Print a file", options := [helpChoice], operands := [pathOperand] },
  { name := "put", about := "Overwrite an existing remote file with a local one"
    options := [helpChoice], operands := [("local", "Local file"), pathOperand] }]

/-- The command that a word names. -/
def Form.find? (word : String) : Option Form :=
  forms.find? (·.name == word)

/-- What has been read of a command line. -/
structure Reading where
  form : Option Form := none
  /-- The options so far, each with its value; a flag has an empty one. -/
  options : List (String × String) := []
  operands : List String := []
  /-- The option whose value comes next. -/
  pending : Option String := none
  /-- Two dashes have been read. -/
  plain : Bool := false
  /-- What help is asked about, if it is asked for by its command. -/
  asked : Option (List String) := none

namespace Reading

def choices (r : Reading) : List Choice :=
  match r.form with
  | some form => form.options
  | none => programOptions

def topic (r : Reading) : Topic :=
  r.form.elim .program .command

/-- Record an option, which may be given only once. -/
def record (r : Reading) (name value : String) : Except Usage Reading :=
  if name == "help" then .error (.help r.topic)
  else if name == "version" then .error .version
  else if (r.options.lookup name).isSome then .error .wrong
  else .ok { r with options := r.options ++ [(name, value)], pending := none }

def operand (r : Reading) (word : String) : Except Usage Reading :=
  match r.form with
  | some form =>
    if r.operands.length < form.operands.length then .ok { r with operands := r.operands ++ [word] }
    else .error .wrong
  | none =>
    if r.plain then .error .wrong
    else if word == "help" then .ok { r with asked := some [] }
    else match Form.find? word with
      | some form => .ok { r with form := some form }
      | none => .error .wrong

/-- An option by its long name, perhaps with a value behind an equals sign. -/
def long (r : Reading) (text : List Char) : Except Usage Reading :=
  let name := String.ofList (text.takeWhile (· != '='))
  match r.choices.find? (·.name == name), text.dropWhile (· != '=') with
  | none, _ => .error .wrong
  | some choice, [] =>
    if choice.takesValue then .ok { r with pending := some name } else r.record name ""
  | some choice, _ :: value =>
    if choice.takesValue then r.record name (String.ofList value) else .error .wrong

/-- Options by their letters.  What follows the letter of one that takes a value is its value. -/
def short (r : Reading) : List Char → Except Usage Reading
  | [] => .ok r
  | c :: rest =>
    match r.choices.find? (·.short == some c) with
    | none => .error .wrong
    | some choice =>
      if choice.takesValue then
        match rest with
        | [] => .ok { r with pending := some choice.name }
        | '=' :: value => r.record choice.name (String.ofList value)
        | value => r.record choice.name (String.ofList value)
      else do (← r.record choice.name "").short rest

/-- Read one word.  All words after the command that gives help say what about. -/
def word (r : Reading) (text : String) : Except Usage Reading :=
  if let some asked := r.asked then .ok { r with asked := some (asked ++ [text]) }
  else if r.plain then r.operand text
  else match text.toList, r.pending with
    | ['-', '-'], none => .ok { r with plain := true }
    | '-' :: '-' :: name, none => r.long name
    | '-' :: c :: rest, none => r.short (c :: rest)
    | '-' :: _ :: _, some _ => .error .wrong
    | _, some name => r.record name text
    | _, none => r.operand text

def words (r : Reading) (texts : List String) : Except Usage Reading :=
  texts.foldlM word r

theorem words_append_error {r : Reading} {texts more : List String} {u : Usage}
    (h : r.words texts = .error u) : r.words (texts ++ more) = .error u := by
  simp only [words, List.foldlM_append] at h ⊢
  rw [h]; rfl

end Reading

inductive Command where
  | serve (bind keys : Option String)
  | stat (path : String) (json : Bool)
  | list (path : String) (json : Bool)
  | cat (path : String)
  | put (source path : String)
  deriving DecidableEq, Repr

/-- A complete command line. -/
structure Invocation where
  config : Option String
  keyDir : Option String
  verbose : Bool
  command : Command
  deriving DecidableEq, Repr

namespace Invocation

def commandOf? (name : String) (options : List (String × String)) (operands : List String) :
    Option Command :=
  let json := (options.lookup "json").isSome
  match name, operands with
  | "serve", [] => some (.serve (options.lookup "bind") (options.lookup "keys"))
  | "stat", [path] => some (.stat path json)
  | "ls", [path] => some (.list path json)
  | "cat", [path] => some (.cat path)
  | "put", [source, path] => some (.put source path)
  | _, _ => none

/-- Help is given on the program or on one command. -/
def usageOf : List String → Usage
  | [] => .help .program
  | [word] =>
    if word == "help" then .help .help else (Form.find? word).elim .wrong (.help ∘ .command)
  | _ => .wrong

/-- The command line that has been read, if nothing is missing. -/
def ofReading (r : Reading) : Except Usage Invocation :=
  match r.asked, r.pending, r.form with
  | some asked, _, _ => .error (usageOf asked)
  | none, none, some form =>
    match commandOf? form.name r.options r.operands with
    | some command =>
      .ok {
        config := r.options.lookup "config", keyDir := r.options.lookup "key-dir"
        verbose := (r.options.lookup "verbose").isSome, command }
    | none => .error .wrong
  | _, _, _ => .error .wrong

/-- Read a command line. -/
def read (texts : List String) : Except Usage Invocation := do
  ofReading (← ({} : Reading).words texts)

theorem read_append_error {texts more : List String} {u : Usage}
    (h : ({} : Reading).words texts = .error u) : read (texts ++ more) = .error u := by
  rw [read, Reading.words_append_error h]; rfl

end Invocation
end UnionFS.Cli
