import DepSolver.Cli.Arguments
import DepSolver.Config
import DepSolver.Stored.Testcase

/-!
# Commands

The program has three commands: `solve` resolves requests, `query` lists the packages a spec stands
for, and `replay` repeats a recorded run. `Invocation.parse` reads one from the arguments of the
program.
-/

namespace DepSolver.Cli

/-- What `solve` is asked. -/
structure SolveArgs where
  world : String
  install : List String := []
  installOptional : List String := []
  erase : List String := []
  upgrade : List String := []
  upgradeAll : Bool := false
  distUpgrade : Bool := false
  best : Bool := false
  allowErasing : Bool := false
  noRecommends : Bool := false
  verify : Bool := false
  /-- The directory of the file with settings. -/
  configDir : String := "."
  noEnvironment : Bool := false
  /-- The directory into which the run is recorded. -/
  debugDir : Option String := none
  json : Bool := false
deriving Repr

/-- What `query` is asked. -/
structure QueryArgs where
  world : String
  spec : String
  installed : Bool := false
  json : Bool := false
deriving Repr

/-- What the program is asked to do. -/
inductive Command where
  | solve (args : SolveArgs)
  | query (args : QueryArgs)
  | replay (dir : String)
deriving Repr

/-- A command, and how much of the log is wanted beside its output. -/
structure Invocation where
  command : Command
  verbosity : Nat := 0
deriving Repr

/-! ## What may be given -/

/-- Asks for more of the log. -/
def verboseOption : OptionSpec :=
  { name := "verbose", short := some 'v', repeats := true
    about := "Increase log verbosity (-v info, -vv debug, -vvv trace)" }

/-- Asks for an explanation. -/
def helpOption : OptionSpec :=
  { name := "help", short := some 'h', kind := .help, about := "Print help" }

def universePositional : PositionalSpec :=
  { name := "UNIVERSE", kind := .path, about := "Universe file (JSON)" }

def jsonOption : OptionSpec := { name := "json", about := "Print the result as JSON" }

def specOption (name : String) (short : Option Char) (about : String) : OptionSpec :=
  { name, short, kind := .value, repeats := true, valueName := "SPEC", about }

/-- The arguments of `solve`. -/
def solveSpec : CommandSpec where
  name := "rsolv solve"
  about := "Resolve install/erase/upgrade requests into a transaction"
  positionals := [universePositional]
  options :=
    [specOption "install" (some 'i') "Packages to install", verboseOption,
     specOption "install-optional" none "Packages to install if possible",
     specOption "erase" (some 'e') "Packages to remove",
     specOption "upgrade" (some 'u') "Packages to upgrade",
     { name := "upgrade-all", about := "Upgrade every installed package" },
     { name := "distupgrade", about := "Synchronize installed packages with the repositories" },
     { name := "best", about := "Install only the best candidate of every request" },
     { name := "allowerasing"
       about := "Allow removing installed packages to satisfy the requests" },
     { name := "no-recommends", about := "Do not install recommended packages" },
     { name := "verify", about := "Check the dependencies of installed packages too" },
     { name := "config-dir", short := some 'c', kind := .path, valueName := "CONFIG_DIR"
       about := "Directory holding rsolv.json [default: .]" },
     { name := "no-env", about := "Ignore RSOLV_* environment variables" },
     { name := "debug-dir", kind := .path, valueName := "DEBUG_DIR"
       about := "Write the solver testcase into this directory" },
     jsonOption, helpOption]

/-- The arguments of `query`. -/
def querySpec : CommandSpec where
  name := "rsolv query"
  about := "List the packages a spec matches"
  positionals :=
    [universePositional,
     { name := "SPEC", about := "Package spec: name, glob, `name op evr` or file path" }]
  options :=
    [{ name := "installed", about := "Only list installed packages" }, verboseOption, jsonOption,
     helpOption]

/-- The arguments of `replay`. -/
def replaySpec : CommandSpec where
  name := "rsolv replay"
  about := "Re-run a solver testcase written with --debug-dir"
  positionals :=
    [{ name := "DIR", kind := .path, about := "Directory holding testcase.json" }]
  options := [verboseOption, helpOption]

/-- The arguments of `help`. -/
def helpSpec : CommandSpec where
  name := "rsolv help"
  about := "Print this message or the help of the given subcommand(s)"
  positionals :=
    [{ name := "COMMAND", repeats := true, about := "Print help for the subcommand(s)" }]

/-- The commands, by their names. -/
def commandSpecs : List (String × CommandSpec) :=
  [("solve", solveSpec), ("query", querySpec), ("replay", replaySpec), ("help", helpSpec)]

/-- What may stand in front of a command. -/
def programSpec : CommandSpec where
  name := "rsolv"
  about := "Resolve package transactions against a JSON universe"
  options :=
    [verboseOption, helpOption,
     { name := "version", short := some 'V', kind := .version, about := "Print version" }]
  commands := commandSpecs.map fun c => (c.1, c.2.about)

/-! ## Commands from arguments -/

namespace SolveArgs

def configPath (args : SolveArgs) : String := Text.joinPath args.configDir Config.fileName

end SolveArgs

namespace Command

def files : Command → List String
  | solve args => [args.world, args.configPath]
  | query args => [args.world]
  | replay dir => [Text.joinPath dir Testcase.fileName]

end Command

namespace Invocation

def ofFound (f : Found) (command : Command) : Invocation :=
  { command, verbosity := f.count "verbose" }

/-- Reads the arguments of `solve`. -/
def parseSolve (args : List String) : Except Stop Invocation := do
  let f ← readArguments solveSpec ({}, none) args
  match f.positionals with
  | [world] =>
    return ofFound f <| .solve {
      world
      install := f.all "install"
      installOptional := f.all "install-optional"
      erase := f.all "erase"
      upgrade := f.all "upgrade"
      upgradeAll := f.has "upgrade-all"
      distUpgrade := f.has "distupgrade"
      best := f.has "best"
      allowErasing := f.has "allowerasing"
      noRecommends := f.has "no-recommends"
      verify := f.has "verify"
      configDir := (f.last? "config-dir").getD "."
      noEnvironment := f.has "no-env"
      debugDir := f.last? "debug-dir"
      json := f.has "json" }
  | _ => throw .usage

/-- Reads the arguments of `query`. -/
def parseQuery (args : List String) : Except Stop Invocation := do
  let f ← readArguments querySpec ({}, none) args
  match f.positionals with
  | [world, spec] =>
    return ofFound f <| .query { world, spec, installed := f.has "installed", json := f.has "json" }
  | _ => throw .usage

/-- Reads the arguments of `replay`. -/
def parseReplay (args : List String) : Except Stop Invocation := do
  let f ← readArguments replaySpec ({}, none) args
  match f.positionals with
  | [dir] => return ofFound f <| .replay dir
  | _ => throw .usage

/-- Reads the command that help is asked about. -/
def parseHelp : List String → Stop
  | [] => .help programSpec
  | [name] => (commandSpecs.lookup name).elim .usage .help
  | _ => .usage

/-- Reads a command by its name. -/
def parseNamed (name : String) (args : List String) : Except Stop Invocation :=
  match name with
  | "solve" => parseSolve args
  | "query" => parseQuery args
  | "replay" => parseReplay args
  | "help" => .error (parseHelp args)
  | _ => .error .usage

/-- Reads the arguments of the program: options, and a command with its arguments. What the command
says about the log goes before what the program says. -/
def parse (args : List String) : Except Stop Invocation :=
  let isFlag (arg : String) : Bool := isOption arg.toList && arg != "--"
  match readArguments programSpec ({}, none) (args.takeWhile isFlag) with
  | .error stop => .error stop
  | .ok f =>
    match args.dropWhile isFlag with
    | name :: rest =>
      (parseNamed name rest).map fun i =>
        if i.verbosity = 0 then { i with verbosity := f.count "verbose" } else i
    | [] => .error .usage

end Invocation

end DepSolver.Cli
