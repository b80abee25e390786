import UnionFS.Cli.Arguments

/-!
# Help

What the program says about its command line: what a command is for, how it is called, and what its
words mean.
-/

namespace UnionFS.Cli

/-- A text with blanks behind it up to some width. -/
def pad (width : Nat) (text : String) : String :=
  text ++ String.ofList (List.replicate (width - text.length) ' ')

namespace Help

/-- Lines of two columns, with two blanks between them. -/
def columns (rows : List (String × String)) : String :=
  let width := (rows.map (·.1.length)).foldl max 0
  String.join (rows.map fun (left, right) => s!"  {pad width left}  {right}\n")

/-- A heading with its lines, or nothing if there are none. -/
def part (heading : String) (rows : List (String × String)) : String :=
  if rows.isEmpty then "" else s!"\n{heading}:\n{columns rows}"

/-- How an option is written.  Long names stand below one another, whether or not there is a letter.
-/
def optionText (c : Choice) : String :=
  let letter := match c.short with
    | some letter => s!"-{letter}, "
    | none => "    "
  let value := c.value.elim "" (s!" <{·}>")
  s!"{letter}--{c.name}{value}"

def optionRows (options : List Choice) : List (String × String) :=
  options.map fun c => (optionText c, c.about)

def operandRows (operands : List (String × String)) : List (String × String) :=
  operands.map fun (name, about) => (s!"<{name}>", about)

/-- The name by which the program is called. -/
def programName : String := "agfs"

def aboutHelp : String := "Print this message or the help of the given subcommand(s)"

/-- How a command is called.  Asking for help is not counted among its options. -/
def commandLine (form : Form) : String :=
  let options := if form.options.any (·.name != helpChoice.name) then " [OPTIONS]" else ""
  programName ++ " " ++ form.name ++ options
    ++ String.join (form.operands.map fun (name, _) => s!" <{name}>")

def programLine : String := programName ++ " [OPTIONS] <COMMAND>"

def text : Topic → String
  | .program =>
    s!"Aggregating network filesystem\n\nUsage: {programLine}\n"
      ++ part "Commands" (forms.map (fun f => (f.name, f.about)) ++ [("help", aboutHelp)])
      ++ part "Options" (optionRows programOptions)
  | .command form =>
    s!"{form.about}\n\nUsage: {commandLine form}\n"
      ++ part "Arguments" (operandRows form.operands) ++ part "Options" (optionRows form.options)
  | .help =>
    s!"{aboutHelp}\n\nUsage: {programName} help [COMMAND]...\n"
      ++ part "Arguments" [("[COMMAND]...", "Print help for the subcommand(s)")]

end Help
end UnionFS.Cli
