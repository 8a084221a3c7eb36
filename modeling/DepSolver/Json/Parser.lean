import DepSolver.Json.Basic
import DepSolver.Text.Numeral

/-!
# Reading JSON

`Json.parse?` reads a text that is exactly one JSON value with blanks around it. Each reader returns
what it read and the rest of the text; the number of steps it may take bounds how deep and how long
values are, and twice the length of the text is always enough.
-/

namespace DepSolver.Json

/-- Whether a character may stand between the parts of a value. -/
def isGap (c : Char) : Bool := c == ' ' || c == '\n' || c == '\t' || c == '\r'

/-- The text without the gap it starts with. -/
def skipGap (s : List Char) : List Char := s.dropWhile isGap

def hexValue? (c : Char) : Option Nat :=
  if c.isDigit then some (c.toNat - 48)
  else if 'a' ≤ c ∧ c ≤ 'f' then some (c.toNat - 87)
  else if 'A' ≤ c ∧ c ≤ 'F' then some (c.toNat - 55)
  else none

/-- The value of four hexadecimal digits. -/
def hexQuad? (a b c d : Char) : Option Nat := do
  let a ← hexValue? a
  let b ← hexValue? b
  let c ← hexValue? c
  let d ← hexValue? d
  return ((a * 16 + b) * 16 + c) * 16 + d

/-- What one step into a string finds. -/
inductive Piece where
  /-- The end of the string. -/
  | close
  | char (c : Char)
  /-- A number in four digits, as it stands after `\u`. -/
  | unit (n : Nat)
deriving Repr

/-- The next piece of a string. -/
def readPiece : List Char → Option (Piece × List Char)
  | '"' :: rest => some (.close, rest)
  | '\\' :: 'u' :: a :: b :: c :: d :: rest => (hexQuad? a b c d).map fun n => (.unit n, rest)
  | '\\' :: c :: rest =>
    match c with
    | '"' => some (.char '"', rest)
    | '\\' => some (.char '\\', rest)
    | '/' => some (.char '/', rest)
    | 'b' => some (.char (Char.ofNat 8), rest)
    | 'f' => some (.char (Char.ofNat 12), rest)
    | 'n' => some (.char '\n', rest)
    | 'r' => some (.char '\r', rest)
    | 't' => some (.char '\t', rest)
    | _ => none
  | c :: rest => if c.toNat < 32 || c == '\\' then none else some (.char c, rest)
  | [] => none

/-- The pieces of a string up to its end. -/
def readPieces : Nat → List Piece → List Char → Option (List Piece × List Char)
  | 0, _, _ => none
  | steps + 1, found, s =>
    match readPiece s with
    | some (.close, rest) => some (found.reverse, rest)
    | some (piece, rest) => readPieces steps (piece :: found) rest
    | none => none

/-- Whether a number is the first half of a pair. -/
def isHighHalf (n : Nat) : Bool := 0xD800 ≤ n && n < 0xDC00

/-- Whether a number is the second half of a pair. -/
def isLowHalf (n : Nat) : Bool := 0xDC00 ≤ n && n < 0xE000

/-- The characters of pieces, unless half of a pair stands alone. -/
def decodePieces? : List Piece → Option (List Char)
  | [] => some []
  | .close :: rest => decodePieces? rest
  | .char c :: rest => (decodePieces? rest).map (c :: ·)
  | .unit n :: rest =>
    if isHighHalf n then
      match rest with
      | .unit m :: rest =>
        if isLowHalf m then
          (decodePieces? rest).map
            (Char.ofNat (0x10000 + (n - 0xD800) * 0x400 + (m - 0xDC00)) :: ·)
        else none
      | _ => none
    else if isLowHalf n then none
    else (decodePieces? rest).map (Char.ofNat n :: ·)

/-- The text of a string whose opening quote has been read; `none` inside for a malformed one. -/
def readString (steps : Nat) (s : List Char) : Option (Option String × List Char) :=
  (readPieces steps [] s).map fun p => ((decodePieces? p.1).map String.ofList, p.2)

/-- A row of at least one digit. -/
def readDigits (s : List Char) : Option (List Char × List Char) :=
  let digits := s.takeWhile Char.isDigit
  if digits.isEmpty then none else some (digits, s.dropWhile Char.isDigit)

/-- The digits before the point: a zero stands alone. -/
def readWhole (s : List Char) : Option (List Char × List Char) :=
  (readDigits s).filter fun p => p.1.length = 1 || p.1.head? != some '0'

/-- The point and the digits after it, if there is a point. -/
def readFraction : List Char → Option (List Char × List Char)
  | '.' :: rest => (readDigits rest).map fun p => ('.' :: p.1, p.2)
  | s => some ([], s)

/-- The exponent, if there is one. -/
def readExponent : List Char → Option (List Char × List Char)
  | e :: rest =>
    if e == 'e' || e == 'E' then
      match rest with
      | '+' :: rest => (readDigits rest).map fun p => (e :: '+' :: p.1, p.2)
      | '-' :: rest => (readDigits rest).map fun p => (e :: '-' :: p.1, p.2)
      | _ => (readDigits rest).map fun p => (e :: p.1, p.2)
    else some ([], e :: rest)
  | [] => some ([], [])

/-- The number that a token denotes. Integers that fit into 64 bits are told from all others. -/
def ofNumber (negative : Bool) (whole fraction exponent : List Char) : Json :=
  let token := String.ofList ((if negative then ['-'] else []) ++ whole ++ fraction ++ exponent)
  if !fraction.isEmpty || !exponent.isEmpty then number token
  else
    match Text.digitsBelow? UInt64.size 0 whole with
    | none => number token
    | some n =>
      if !negative then int n
      else if n = 0 || UInt64.size / 2 < n then number token
      else int (-n)

def readNumber (s : List Char) : Option (Json × List Char) := do
  let negative := s.head? == some '-'
  let (whole, s) ← readWhole (if negative then s.drop 1 else s)
  let (fraction, s) ← readFraction s
  let (exponent, s) ← readExponent s
  return (ofNumber negative whole fraction exponent, s)

/-- A word with a meaning of its own. -/
def readWord (word : String) (value : Json) (s : List Char) : Option (Json × List Char) :=
  if word.toList.isPrefixOf s then some (value, s.drop word.length) else none

/-- An object of some fields; one with a malformed key is malformed. -/
def ofFields (fields : List (Option String × Json)) : Json :=
  match fields.mapM fun f => f.1.map fun key => (key, f.2) with
  | some fields => object fields
  | none => malformed

mutual

/-- A value, and the text behind it. -/
def readValue : Nat → List Char → Option (Json × List Char)
  | 0, _ => none
  | steps + 1, s =>
    match skipGap s with
    | 'n' :: rest => readWord "ull" null rest
    | 't' :: rest => readWord "rue" (bool true) rest
    | 'f' :: rest => readWord "alse" (bool false) rest
    | '"' :: rest =>
      (readString steps rest).map fun p =>
        match p.1 with
        | some s => (text s, p.2)
        | none => (malformed, p.2)
    | '[' :: rest =>
      match skipGap rest with
      | ']' :: rest => some (list [], rest)
      | _ => (readItems steps [] rest).map fun p => (list p.1, p.2)
    | '\x7b' :: rest =>
      match skipGap rest with
      | '\x7d' :: rest => some (object [], rest)
      | _ => (readFields steps [] rest).map fun p => (ofFields p.1, p.2)
    | s => readNumber s

/-- The items of a list that has at least one more, and its end. -/
def readItems : Nat → List Json → List Char → Option (List Json × List Char)
  | 0, _, _ => none
  | steps + 1, found, s =>
    match readValue steps s with
    | none => none
    | some (value, rest) =>
      match skipGap rest with
      | ',' :: rest => readItems steps (value :: found) rest
      | ']' :: rest => some ((value :: found).reverse, rest)
      | _ => none

/-- The fields of an object that has at least one more, and its end. -/
def readFields :
    Nat → List (Option String × Json) → List Char →
      Option (List (Option String × Json) × List Char)
  | 0, _, _ => none
  | steps + 1, found, s =>
    match skipGap s with
    | '"' :: rest =>
      match readString steps rest with
      | none => none
      | some (key, rest) =>
        match skipGap rest with
        | ':' :: rest =>
          match readValue steps rest with
          | none => none
          | some (value, rest) =>
            match skipGap rest with
            | ',' :: rest => readFields steps ((key, value) :: found) rest
            | '\x7d' :: rest => some (((key, value) :: found).reverse, rest)
            | _ => none
        | _ => none
    | _ => none

end

/-- Reads a text that is exactly one value. -/
def parse? (s : String) : Option Json := do
  let s := s.toList
  let (value, rest) ← readValue (2 * s.length + 2) s
  if (skipGap rest).isEmpty then some value else none

end DepSolver.Json
