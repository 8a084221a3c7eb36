/-!
# JSON values and their text

A `Json` value keeps the fields of an object in order, repeated ones included, and tells integers
from other numbers by how they are written. A value is printed in one line, or on several lines with
two spaces for each level.

Some texts follow the grammar of JSON and yet denote no value, because an escape in a string is
half of a pair. They are read as `malformed`: whoever needs the value refuses them, and whoever
passes over it does not mind.
-/

namespace DepSolver

/-- A JSON value. -/
inductive Json where
  | null
  | bool (b : Bool)
  | int (n : Int)
  /-- A number with a point or an exponent, minus zero, or one beyond 64 bits, as it is written. -/
  | number (token : String)
  | text (s : String)
  /-- A string, or an object with a key, that contains half of a pair of escapes. -/
  | malformed
  | list (items : List Json)
  | object (fields : List (String × Json))
deriving Inhabited, Repr

namespace Json

/-- The digit of a value below 16. -/
def hexDigit (n : Nat) : Char := "0123456789abcdef".toList.getD n '0'

/-- A character as it stands in a string. -/
def escapeChar (c : Char) : List Char :=
  match c with
  | '"' => ['\\', '"']
  | '\\' => ['\\', '\\']
  | '\n' => ['\\', 'n']
  | '\r' => ['\\', 'r']
  | '\t' => ['\\', 't']
  | _ =>
    if c.toNat = 8 then ['\\', 'b']
    else if c.toNat = 12 then ['\\', 'f']
    else if c.toNat < 32 then
      ['\\', 'u', '0', '0', hexDigit (c.toNat / 16), hexDigit (c.toNat % 16)]
    else [c]

def quote (s : String) : String := "\"" ++ String.ofList (s.toList.flatMap escapeChar) ++ "\""

/-- The text of a value that has no parts. -/
def atom : Json → String
  | null | malformed | list _ | object _ => "null"
  | bool true => "true"
  | bool false => "false"
  | int n => toString n
  | number token => token
  | text s => quote s

mutual

/-- The parts of the value in one line. -/
def compactParts : Json → List String
  | list items => "[" :: (compactItems items ++ ["]"])
  | object fields => "\x7b" :: (compactFields fields ++ ["\x7d"])
  | j => [j.atom]

def compactItems : List Json → List String
  | [] => []
  | [j] => compactParts j
  | j :: rest => compactParts j ++ "," :: compactItems rest

/-- The parts of the fields of an object in one line. -/
def compactFields : List (String × Json) → List String
  | [] => []
  | [(key, j)] => quote key :: ":" :: compactParts j
  | (key, j) :: rest => quote key :: ":" :: (compactParts j ++ "," :: compactFields rest)

end

/-- The value in one line. -/
def compact (j : Json) : String := String.join j.compactParts

/-- The start of a line at some depth. -/
def indent (depth : Nat) : String := "\n" ++ String.ofList (List.replicate (2 * depth) ' ')

mutual

/-- The parts of the value on several lines, the first of which stands at some depth already. -/
def prettyParts (depth : Nat) : Json → List String
  | list [] => ["[]"]
  | list items => "[" :: (prettyItems (depth + 1) items ++ [indent depth, "]"])
  | object [] => ["\x7b\x7d"]
  | object fields => "\x7b" :: (prettyFields (depth + 1) fields ++ [indent depth, "\x7d"])
  | j => [j.atom]

/-- The parts of the items of a list, each on a line of its own. -/
def prettyItems (depth : Nat) : List Json → List String
  | [] => []
  | [j] => indent depth :: prettyParts depth j
  | j :: rest => indent depth :: (prettyParts depth j ++ "," :: prettyItems depth rest)

/-- The parts of the fields of an object, each on a line of its own. -/
def prettyFields (depth : Nat) : List (String × Json) → List String
  | [] => []
  | [(key, j)] => indent depth :: quote key :: ": " :: prettyParts depth j
  | (key, j) :: rest =>
    indent depth :: quote key :: ": " :: (prettyParts depth j ++ "," :: prettyFields depth rest)

end

/-- The value on several lines. -/
def pretty (j : Json) : String := String.join (j.prettyParts 0)

def texts (items : List String) : Json := list (items.map text)

/-- A value that may be missing. -/
def ofOption {α : Type} (f : α → Json) : Option α → Json
  | some a => f a
  | none => null

/-- A field that is left out if there is nothing to say. -/
def fieldUnless (omitted : Bool) (key : String) (value : Json) : List (String × Json) :=
  if omitted then [] else [(key, value)]

end Json

end DepSolver
