import DepSolver.Error
import DepSolver.Job
import DepSolver.Json.Record
import DepSolver.Stored.Universe
import DepSolver.Text.Lowercase
import DepSolver.Text.Path
import DepSolver.Text.Uppercase

/-!
# Settings

The settings of resolution are merged from three sources, each taking precedence over the one
before: built-in values, the file `rsolv.json`, and environment variables. The variable of a
setting is its name in capitals, with underscores for hyphens, behind `RSOLV_`; lists are written
with commas.
-/

namespace DepSolver

/-- The settings of resolution. -/
structure Config where
  /-- The names whose providers may be installed side by side. -/
  installonly : List String :=
    ["kernel", "kernel-PAE", "installonlypkg(kernel)", "installonlypkg(kernel-module)",
     "installonlypkg(vm)", "multiversion(kernel)"]
  /-- How many versions of an install-only package may coexist; 0 for any number. -/
  installonlyLimit : Nat := 3
  /-- What must not be removed. -/
  protectedNames : List String := []
  /-- Only the best candidates satisfy a request. -/
  best : Bool := false
  /-- Erasing leaves nothing behind that the erased package pulled in. -/
  cleanRequirements : Bool := false
  allowVendorChange : Bool := true
  /-- The release of the booted kernel. -/
  kernelRelease : Option String := none
  /-- The directory into which every run is recorded. -/
  debugDir : Option String := none
deriving DecidableEq, Repr, Inhabited

namespace Config

def fileName : String := "rsolv.json"

/-- The names of the settings, in order. -/
def fieldNames : List String :=
  ["installonlypkgs", "installonly-limit", "protected-packages", "best",
   "clean-requirements-on-remove", "allow-vendor-change", "kernel-release", "debug-solver-dir"]

/-- Reads settings. What is not mentioned has its built-in value. -/
def ofJson? (j : Json) : Option Config := do
  let r ← Record.ofJson? fieldNames j
  let builtIn : Config := {}
  return {
    installonly := ← r.optional? "installonlypkgs" Json.textList? builtIn.installonly
    installonlyLimit :=
      ← r.optional? "installonly-limit" (Json.natBelow? UInt32.size) builtIn.installonlyLimit
    protectedNames := ← r.optional? "protected-packages" Json.textList? builtIn.protectedNames
    best := ← r.optional? "best" Json.bool? builtIn.best
    cleanRequirements :=
      ← r.optional? "clean-requirements-on-remove" Json.bool? builtIn.cleanRequirements
    allowVendorChange := ← r.optional? "allow-vendor-change" Json.bool? builtIn.allowVendorChange
    kernelRelease := ← r.optional? "kernel-release" (Json.nullable? Json.text?) none
    debugDir := ← r.optional? "debug-solver-dir" (Json.nullable? Json.text?) none }

def toJson (c : Config) : Json :=
  .object <|
    [("installonlypkgs", .texts c.installonly), ("installonly-limit", .int c.installonlyLimit),
     ("protected-packages", .texts c.protectedNames), ("best", .bool c.best),
     ("clean-requirements-on-remove", .bool c.cleanRequirements),
     ("allow-vendor-change", .bool c.allowVendorChange)]
      ++ Json.fieldUnless c.kernelRelease.isNone "kernel-release" (.ofOption .text c.kernelRelease)
      ++ Json.fieldUnless c.debugDir.isNone "debug-solver-dir" (.ofOption .text c.debugDir)

/-- The universe with the install-only names and the kernel of the settings. A kernel that was
detected stands in for one that is not set. -/
def apply (c : Config) (detected : Option String) (u : Universe) : Universe :=
  (u.setInstallonly c.installonly c.installonlyLimit).setKernelRelease
    (c.kernelRelease.or detected)

def eraseFlags (c : Config) : JobFlags := if c.cleanRequirements then .cleandeps else .empty

end Config

/-! ## The environment -/

/-- Environment variables by name. -/
abbrev Environment := List (String × String)

namespace Environment

def variableOf (key : String) : String :=
  let underscored := key.toList.map fun c => if c = '-' then '_' else c
  "RSOLV_" ++ String.ofList (Text.uppercase underscored)

/-- The value of a setting's variable. An empty one counts as not set. -/
def text? (env : Environment) (key : String) : Option String :=
  (env.lookup (variableOf key)).filter (· != "")

/-- The value of a switch: off for a few words, on for everything else. -/
def bool? (env : Environment) (key : String) : Option Bool :=
  (env.text? key).map fun s =>
    let word := String.ofList (Text.lowercase s.toList)
    !(word == "false" || word == "0" || word == "no")

/-- The items of a list, without the blanks around them and without empty ones. -/
def list? (env : Environment) (key : String) : Option (List String) :=
  (env.text? key).map fun s =>
    ((Text.splitAll ',' s.toList).map fun item => String.ofList (Text.trim item)).filter (· != "")

end Environment

/-- Where a setting comes from. -/
inductive ConfigSource where
  | builtIn
  | file (path : String)
  | environment (name : String)
deriving DecidableEq, Repr

namespace ConfigSource

def toText : ConfigSource → String
  | builtIn => "default"
  | file path => path
  | environment name => name

end ConfigSource

namespace Config

/-- The settings of a file. Without the file they have their built-in values. -/
def ofFile (path : String) : FileContent → Except GoalError Config
  | .missing => .ok {}
  | .unreadable => .error (.unreadableFile path)
  | .text s =>
    match (Json.parse? s).bind ofJson? with
    | some c => .ok c
    | none => .error (.unparsableFile path)

/-- The install-only limit of the environment. -/
def environmentLimit (env : Environment) (missing : Nat) : Except GoalError Nat :=
  match env.text? "installonly-limit" with
  | none => .ok missing
  | some s =>
    match Text.readNumeral? UInt32.size s.toList with
    | some n => .ok n
    | none => .error (.config ("RSOLV_INSTALLONLY_LIMIT is not a number: " ++ s))

/-- The settings with what the environment says about them. -/
def override (c : Config) (env : Environment) : Except GoalError Config := do
  let installonlyLimit ← environmentLimit env c.installonlyLimit
  return {
    installonly := (env.list? "installonlypkgs").getD c.installonly
    installonlyLimit
    protectedNames := (env.list? "protected-packages").getD c.protectedNames
    best := (env.bool? "best").getD c.best
    cleanRequirements := (env.bool? "clean-requirements-on-remove").getD c.cleanRequirements
    allowVendorChange := (env.bool? "allow-vendor-change").getD c.allowVendorChange
    kernelRelease := (env.text? "kernel-release").or c.kernelRelease
    debugDir := (env.text? "debug-solver-dir").or c.debugDir }

def load (path : String) (content : FileContent) (env : Environment) : Except GoalError Config := do
  (← ofFile path content).override env

/-- Whether a file is a JSON object that mentions a setting, however it sets it. -/
def mentions (content : FileContent) (key : String) : Bool :=
  match content with
  | .text s =>
    match Json.parse? s with
    | some j =>
      j.isSound Json.maxDepth &&
        match j with
        | .object fields => fields.any fun f => f.1 == key
        | _ => false
    | none => false
  | _ => false

/-- Where a setting comes from. -/
def sourceOf (path : String) (content : FileContent) (env : Environment) (key : String) :
    ConfigSource :=
  if (env.text? key).isSome then .environment (Environment.variableOf key)
  else if mentions content key then .file path
  else .builtIn

end Config

end DepSolver
