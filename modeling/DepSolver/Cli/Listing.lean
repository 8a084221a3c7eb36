import DepSolver.Goal.Report

/-!
# Listings

How packages are shown to a user. The report of a resolved goal lists them in sections, by what
happens to them; every package stands on a line with its repository and, where that says something,
the reason why it takes part. The same report can be written as JSON.
-/

namespace DepSolver.Cli

/-- A package as it is listed. -/
structure Entry where
  package : String
  repo : String
  /-- Why the package takes part. -/
  reason : Option InstallReason := none
deriving DecidableEq, Repr

namespace Entry

/-- The entry of a package, without a reason. -/
def ofPackage (u : Universe) (id : PackageId) : Entry where
  package := u.nevraOrNumber id
  repo := ((u.packageRepo? id).map (·.name)).getD ""

def toLine (e : Entry) : String :=
  e.package ++ " " ++ e.repo ++
    match e.reason with
    | some reason => " (" ++ reason.toText ++ ")"
    | none => ""

def toJson (e : Entry) : Json :=
  .object <|
    [("package", .text e.package), ("repo", .text e.repo)]
      ++ Json.fieldUnless e.reason.isNone "reason"
        (.ofOption (fun reason => .text reason.toText) e.reason)

end Entry

/-- The packages that one thing happens to. -/
structure Section where
  title : String
  /-- The name of the section in JSON. -/
  key : String
  entries : List Entry
deriving DecidableEq, Repr

/-- What happens to packages, in the order in which it is shown. -/
abbrev Report := List Section

namespace Report

/-- The report of a resolved goal. It gives reasons for what comes in and for what is erased. -/
def ofGoal (g : Goal) : Except GoalError Report := do
  let plain (ids : List PackageId) : List Entry := ids.map (Entry.ofPackage g.world)
  let explained (ids : List PackageId) : List Entry :=
    ids.map fun id => { Entry.ofPackage g.world id with reason := some (g.reason id) }
  return [
    { title := "Installing", key := "install", entries := explained (← g.installs) },
    { title := "Upgrading", key := "upgrade", entries := plain (← g.upgrades) },
    { title := "Downgrading", key := "downgrade", entries := plain (← g.downgrades) },
    { title := "Reinstalling", key := "reinstall", entries := plain (← g.reinstalls) },
    { title := "Removing", key := "erase", entries := explained (← g.erasures) },
    { title := "Obsoleting", key := "obsoleted", entries := plain (← g.obsoleted) }]

def isEmpty (r : Report) : Bool := r.all fun s => s.entries.isEmpty

/-- The report as lines. Sections without packages are not shown. -/
def toLines (r : Report) : List String :=
  if r.isEmpty then ["Nothing to do."]
  else
    (r.filter fun s => !s.entries.isEmpty).flatMap fun s =>
      (s.title ++ ":") :: s.entries.map fun e => "  " ++ e.toLine

/-- The report as JSON, with all sections. -/
def toJson (r : Report) : Json :=
  .object (r.map fun s => (s.key, .list (s.entries.map Entry.toJson)))

end Report

def numberedProblems (problems : List (List String)) : List String :=
  (problems.zipIdx 1).flatMap fun p =>
    (" Problem " ++ toString p.2 ++ ":") :: p.1.map ("  - " ++ ·)

end DepSolver.Cli
