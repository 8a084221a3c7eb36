import DepSolver.Selector.Basic

/-!
# Errors

Everything that can go wrong between reading a universe and reporting a transaction. A `GoalError`
holds the cause; its wording is in `GoalError.message`, and what stands behind it in
`GoalError.causes`.
-/

namespace DepSolver

/-- Why a request could not be carried out. -/
inductive GoalError where
  /-- A selector cannot be used. -/
  | illFormedSelector (cause : SelectorError)
  /-- No set of packages satisfies the requests. -/
  | noSolutionPossible
  /-- The transaction would remove protected packages. -/
  | removalOfProtectedPackage
  /-- Something was asked for at the wrong time. -/
  | internal (message : String)
  /-- A record of a run could not be written. -/
  | debugData (message : String)
  /-- No package has this key. -/
  | unknownPackage (key : String)
  /-- A version or a relation cannot be read. -/
  | evr (cause : EvrError)
  /-- A setting makes no sense. -/
  | config (message : String)
  /-- A file that was asked for cannot be read. -/
  | unreadableFile (path : String)
  /-- A file does not hold what it should. -/
  | unparsableFile (path : String)
  /-- A text does not describe what it should. -/
  | json
  /-- The file system refused. -/
  | io
deriving DecidableEq, Repr

def GoalError.message : GoalError → String
  | illFormedSelector cause => cause.message
  | noSolutionPossible => "no solution possible"
  | removalOfProtectedPackage => "no solution, cannot remove protected package"
  | internal message => message
  | debugData message => message
  | unknownPackage key => "Unknown package: " ++ key
  | evr cause => "Invalid dependency: " ++ cause.message
  | config message => "Configuration error: " ++ message
  | unreadableFile path => "Configuration error: Failed to read " ++ path ++ ": " ++ unreadable
  | unparsableFile path => "Configuration error: Failed to parse " ++ path ++ ": " ++ unexpected
  | json => "Failed to parse JSON: " ++ unexpected
  | io => "IO error: " ++ unreadable
where
  unreadable : String := "no readable file"
  unexpected : String := "unexpected content"

/-- The wordings of the causes of an error, each the cause of the one before. -/
def GoalError.causes : GoalError → List String
  | illFormedSelector (.invalidRelation cause) => [cause.message]
  | evr cause => [cause.message]
  | json => [message.unexpected]
  | io => [message.unreadable]
  | _ => []

end DepSolver
