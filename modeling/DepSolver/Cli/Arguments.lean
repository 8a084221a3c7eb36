/-!
# Command line arguments

Arguments are options and positional values in any order. An option has a long name behind two
hyphens and perhaps a short one behind one hyphen; short options may be run together, and the value
of an option is attached to it, with or without an equals sign, or is the next argument. Two
hyphens alone end the options.
-/

namespace DepSolver.Cli

/-- What an option takes. -/
inductive OptionKind where
  | flag
  /-- Any value. -/
  | value
  /-- A value that is not empty. -/
  | path
  /-- Prints a help text instead of anything else. -/
  | help
  /-- Prints the version instead of anything else. -/
  | version
deriving DecidableEq, Repr

/-- An option. -/
structure OptionSpec where
  name : String
  short : Option Char := none
  kind : OptionKind := .flag
  /-- Whether the option may be given several times. -/
  repeats : Bool := false
  /-- How its value is called. -/
  valueName : String := ""
  /-- What it is for. -/
  about : String
deriving DecidableEq, Repr

/-- A positional value. -/
structure PositionalSpec where
  name : String
  kind : OptionKind := .value
  /-- Whether there may be any number of them. -/
  repeats : Bool := false
  /-- What it is for. -/
  about : String
deriving DecidableEq, Repr

/-- What may stand in the arguments of a command. -/
structure CommandSpec where
  /-- The words by which it is called. -/
  name : String
  /-- What it is for. -/
  about : String
  positionals : List PositionalSpec := []
  /-- The options, in the order in which they are shown. -/
  options : List OptionSpec := []
  /-- The commands of which one has to follow, each with what it is for. -/
  commands : List (String × String) := []
deriving DecidableEq, Repr

/-- Why there is nothing to run. -/
inductive Stop where
  /-- The arguments make no sense. -/
  | usage
  /-- A command is to be explained. -/
  | help (command : CommandSpec)
  | version
deriving DecidableEq, Repr

/-- Options with their values, and positional values, in order. -/
structure Found where
  options : List (String × String) := []
  positionals : List String := []
deriving Repr

namespace Found

def has (f : Found) (name : String) : Bool := f.options.any fun o => o.1 == name

def all (f : Found) (name : String) : List String :=
  (f.options.filter fun o => o.1 == name).map (·.2)

/-- How often an option was given. -/
def count (f : Found) (name : String) : Nat := (f.all name).length

/-- The value of an option that is given at most once. -/
def last? (f : Found) (name : String) : Option String := (f.all name).getLast?

end Found

def record (c : CommandSpec) (f : Found) (o : OptionSpec) (value : String) : Except Stop Found :=
  if !o.repeats && f.has o.name then .error .usage
  else
    match o.kind with
    | .help => .error (.help c)
    | .version => .error .version
    | .path =>
      if value.isEmpty then .error .usage
      else .ok { f with options := f.options ++ [(o.name, value)] }
    | .flag | .value => .ok { f with options := f.options ++ [(o.name, value)] }

def OptionKind.takesValue : OptionKind → Bool
  | value | path => true
  | flag | help | version => false

/-- What one argument leaves behind: what was found, and the option whose value has to follow. -/
abbrev Step := Found × Option OptionSpec

/-- Reads options run together behind one hyphen. -/
def readShort (command : CommandSpec) (f : Found) : List Char → Except Stop Step
  | [] => .ok (f, none)
  | c :: rest =>
    match command.options.find? fun o => o.short == some c with
    | none => .error .usage
    | some o =>
      if o.kind.takesValue then
        match rest with
        | [] => .ok (f, some o)
        | '=' :: value => (record command f o (String.ofList value)).map fun f => (f, none)
        | value => (record command f o (String.ofList value)).map fun f => (f, none)
      else
        match record command f o "" with
        | .ok f => readShort command f rest
        | .error e => .error e

/-- Reads an option behind two hyphens. -/
def readLong (command : CommandSpec) (f : Found) (s : List Char) : Except Stop Step :=
  let name := String.ofList (s.takeWhile (· != '='))
  match command.options.find? fun o => o.name == name, s.dropWhile (· != '=') with
  | none, _ => .error .usage
  | some o, [] =>
    if o.kind.takesValue then .ok (f, some o) else (record command f o "").map fun f => (f, none)
  | some o, _ :: value =>
    if o.kind.takesValue then (record command f o (String.ofList value)).map fun f => (f, none)
    else .error .usage

def isOption (s : List Char) : Bool := s.head? == some '-' && 1 < s.length

/-- Takes note of a positional value, which may have to be the path of something. -/
def recordPositional (command : CommandSpec) (f : Found) (value : String) : Except Stop Found :=
  match command.positionals[f.positionals.length]? with
  | none => .error .usage
  | some p =>
    if p.kind == .path && value.isEmpty then .error .usage
    else .ok { f with positionals := f.positionals ++ [value] }

/-- Reads arguments; `waiting` is the option whose value has to come next. -/
def readArguments (command : CommandSpec) : Step → List String → Except Stop Found
  | (f, none), [] => .ok f
  | (_, some _), [] => .error .usage
  | (f, some o), arg :: rest =>
    if isOption arg.toList then .error .usage
    else
      match record command f o arg with
      | .ok f => readArguments command (f, none) rest
      | .error e => .error e
  | (f, none), arg :: rest =>
    match arg.toList with
    | ['-', '-'] => rest.foldlM (recordPositional command) f
    | '-' :: '-' :: long =>
      match readLong command f long with
      | .ok step => readArguments command step rest
      | .error e => .error e
    | '-' :: c :: short =>
      match readShort command f (c :: short) with
      | .ok step => readArguments command step rest
      | .error e => .error e
    | _ =>
      match recordPositional command f arg with
      | .ok f => readArguments command (f, none) rest
      | .error e => .error e

end DepSolver.Cli
