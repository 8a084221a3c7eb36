/-!
# Events

What a goal does while it resolves is told as a sequence of events. Each has a type, a wording, and
a level of importance at which it goes into a log.
-/

namespace DepSolver

/-- How important a line of a log is. -/
inductive LogLevel where
  | debug
  | info
  | warn
deriving DecidableEq, Repr

def LogLevel.toText : LogLevel → String
  | debug => "debug"
  | info => "info"
  | warn => "warn"

/-- Kinds of events. -/
inductive EventType where
  | resolving
  | resolved
  | unsolvable
  | installonlyLimited
  | protectedRemoval
  | debugDataWritten
deriving DecidableEq, Repr

namespace EventType

/-- All kinds, in declaration order. -/
def all : List EventType :=
  [resolving, resolved, unsolvable, installonlyLimited, protectedRemoval, debugDataWritten]

def toText : EventType → String
  | resolving => "resolving"
  | resolved => "resolved"
  | unsolvable => "unsolvable"
  | installonlyLimited => "installonly-limited"
  | protectedRemoval => "protected-removal"
  | debugDataWritten => "debugdata-written"

def level : EventType → LogLevel
  | resolving | debugDataWritten => .debug
  | resolved | installonlyLimited => .info
  | unsolvable | protectedRemoval => .warn

end EventType

/-- Something that happens while a goal resolves. -/
inductive GoalEvent where
  /-- A job of so many entries is about to be solved. -/
  | resolving (entries : Nat)
  /-- The transaction has so many steps. -/
  | resolved (steps : Nat)
  /-- There are so many problems. -/
  | unsolvable (problems : Nat)
  /-- Too many versions would be kept, so the job is solved again with so many erasures. -/
  | installonlyLimited (erasures : Nat)
  /-- These protected packages would be removed. -/
  | protectedRemoval (packages : List String)
  /-- The run was recorded in a directory. -/
  | debugDataWritten (path : String)
deriving DecidableEq, Repr

namespace GoalEvent

def type : GoalEvent → EventType
  | resolving _ => .resolving
  | resolved _ => .resolved
  | unsolvable _ => .unsolvable
  | installonlyLimited _ => .installonlyLimited
  | protectedRemoval _ => .protectedRemoval
  | debugDataWritten _ => .debugDataWritten

def toText : GoalEvent → String
  | resolving entries => "resolving job with " ++ toString entries ++ " entries"
  | resolved steps => "resolved into " ++ toString steps ++ " transaction steps"
  | unsolvable problems => "no solution, " ++ toString problems ++ " problem(s)"
  | installonlyLimited erasures =>
    "install-only limit exceeded, re-resolving with " ++ toString erasures ++ " erasures"
  | protectedRemoval packages =>
    "transaction would remove protected packages: " ++ ", ".intercalate packages
  | debugDataWritten path => "debug data written to " ++ path

end GoalEvent

end DepSolver
