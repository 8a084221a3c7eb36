import DepSolver.Cli.Command
import DepSolver.Cli.Outcome

/-!
# Texts about the program

What the program prints when it is not asked to do anything: how a command is used, and which
version the program is. The explanation of a command says what the command is for and how it is
called, and then lists the commands that may follow, its positional values and its options, each in
two columns.
-/

namespace DepSolver.Cli

/-- Lines of two columns, the first of which is as wide as its longest entry. -/
def columns (rows : List (String × String)) : List String :=
  let width := rows.foldl (fun n row => max n row.1.length) 0
  rows.map fun row =>
    "  " ++ row.1 ++ String.ofList (List.replicate (width - row.1.length + 2) ' ') ++ row.2

/-- Rows under a title, with an empty line before it. -/
def titled (title : String) (rows : List (String × String)) : List String :=
  if rows.isEmpty then [] else "" :: (title ++ ":") :: columns rows

/-- An option as it is listed. Long names stand below each other, short ones or not. -/
def OptionSpec.label (o : OptionSpec) : String :=
  let short :=
    match o.short with
    | some c => "-" ++ String.singleton c ++ ", "
    | none => "    "
  let suffix :=
    if o.kind.takesValue then " <" ++ o.valueName ++ ">" else if o.repeats then "..." else ""
  short ++ "--" ++ o.name ++ suffix

/-- A positional value as it is listed. -/
def PositionalSpec.label (p : PositionalSpec) : String :=
  if p.repeats then "[" ++ p.name ++ "]..." else "<" ++ p.name ++ ">"

namespace CommandSpec

/-- How a command is called. Options that only ask about it are not worth a mention. -/
def usage (c : CommandSpec) : String :=
  let hasOptions := c.options.any fun o => o.kind != .help && o.kind != .version
  " ".intercalate <|
    ["Usage:", c.name] ++ (if hasOptions then ["[OPTIONS]"] else [])
      ++ c.positionals.map PositionalSpec.label
      ++ if c.commands.isEmpty then [] else ["<COMMAND>"]

def helpLines (c : CommandSpec) : List String :=
  [c.about, "", c.usage] ++ titled "Commands" c.commands
    ++ titled "Arguments" (c.positionals.map fun p => (p.label, p.about))
    ++ titled "Options" (c.options.map fun o => (o.label, o.about))

end CommandSpec

/-- What the program says about itself. -/
def versionText : String := "rsolv 0.0.1"

def Stop.toOutcome : Stop → Outcome
  | .usage => { code := 2, errors := [programSpec.usage] }
  | .help command => { output := command.helpLines }
  | .version => { output := [versionText] }

end DepSolver.Cli
