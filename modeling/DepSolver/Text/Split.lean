/-!
# Cutting a text at a separator

`splitFirst` cuts at the first occurrence of a separator and `splitLast` at the last one. Both
drop that one occurrence and keep everything else, so the two parts and the separator put together
are the text again.
-/

namespace DepSolver.Text

/-- The parts before and after the first `sep`, if there is one. -/
def splitFirst (sep : Char) : List Char → Option (List Char × List Char)
  | [] => none
  | c :: rest =>
    if c = sep then some ([], rest)
    else (splitFirst sep rest).map fun parts => (c :: parts.1, parts.2)

/-- The parts before and after the last `sep`, if there is one. -/
def splitLast (sep : Char) : List Char → Option (List Char × List Char)
  | [] => none
  | c :: rest =>
    match splitLast sep rest with
    | some parts => some (c :: parts.1, parts.2)
    | none => if c = sep then some ([], rest) else none

/-- The pieces between consecutive occurrences of `sep`; a text without `sep` is one piece. -/
def splitAll (sep : Char) : List Char → List (List Char)
  | [] => [[]]
  | c :: rest =>
    if c = sep then [] :: splitAll sep rest
    else
      match splitAll sep rest with
      | [] => [[c]]
      | piece :: pieces => (c :: piece) :: pieces

end DepSolver.Text
