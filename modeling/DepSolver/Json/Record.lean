import DepSolver.Json.Magnitude
import DepSolver.Json.Parser

/-!
# Reading values of known shape

A record has named fields in a fixed order. It is written as an object, whose unknown fields are
passed over and whose known ones may not be repeated, or as a list of the values of its fields in
order, the last of which may be missing.

All that is said about a value that does not have the expected shape is that it has not.
-/

namespace DepSolver

namespace Json

def text? : Json → Option String
  | text s => some s
  | _ => none

/-- The truth value that a value is. -/
def bool? : Json → Option Bool
  | bool b => some b
  | _ => none

/-- The integer between two bounds that a value is. -/
def intIn? (least greatest : Int) : Json → Option Int
  | int n => if least ≤ n ∧ n ≤ greatest then some n else none
  | _ => none

/-- The natural number below a bound that a value is. -/
def natBelow? (bound : Nat) (j : Json) : Option Nat :=
  (j.intIn? 0 ((bound : Int) - 1)).map Int.toNat

/-- The items of a list, all of one shape. -/
def listOf? {α : Type} (item? : Json → Option α) : Json → Option (List α)
  | list items => items.mapM item?
  | _ => none

/-- A value, or nothing for null. -/
def nullable? {α : Type} (value? : Json → Option α) : Json → Option (Option α)
  | null => some none
  | j => (value? j).map some

/-- One of some names, written as a text, or as an object with this one field and nothing in it. -/
def oneOf? {α : Type} (ofName? : String → Option α) : Json → Option α
  | text s => ofName? s
  | object [(key, null)] => ofName? key
  | _ => none

mutual

/-- Whether a value is sound all through: no part is malformed or too large, and it is nested less
deep than a bound. -/
def isSound : Nat → Json → Bool
  | _, malformed => false
  | _, number token => (Magnitude.ofToken token).isFinite
  | 0, list _ => false
  | 0, object _ => false
  | depth + 1, list items => areSound depth items
  | depth + 1, object fields => areSoundFields depth fields
  | _, _ => true

/-- Whether all items are sound. -/
def areSound : Nat → List Json → Bool
  | _, [] => true
  | depth, j :: rest => isSound depth j && areSound depth rest

def areSoundFields : Nat → List (String × Json) → Bool
  | _, [] => true
  | depth, f :: rest => isSound depth f.2 && areSoundFields depth rest

end

/-- How deep lists and objects may be nested in a text that has a value to be kept as a whole. -/
def maxDepth : Nat := 127

end Json

/-- The known fields that a value has, by name. -/
structure Record where
  fields : List (String × Json)

namespace Record

/-- Whether some name occurs twice among the fields. -/
def hasRepeated : List (String × Json) → Bool
  | [] => false
  | f :: rest => rest.any (fun g => g.1 == f.1) || hasRepeated rest

def ofJson? (names : List String) : Json → Option Record
  | .object fields =>
    let known := fields.filter fun f => names.contains f.1
    if hasRepeated known then none else some ⟨known⟩
  | .list items => if items.length ≤ names.length then some ⟨names.zip items⟩ else none
  | _ => none

def required? {α : Type} (r : Record) (name : String) (value? : Json → Option α) : Option α :=
  (r.fields.lookup name).bind value?

def optional? {α : Type} (r : Record) (name : String) (value? : Json → Option α) (missing : α) :
    Option α :=
  match r.fields.lookup name with
  | some j => value? j
  | none => some missing

end Record

end DepSolver
