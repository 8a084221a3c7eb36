import DepSolver.Text.Glob
import DepSolver.Text.Lowercase

/-!
# Comparing a text with what was asked for

A text may have to equal a pattern, to contain it, or to fit it as a glob, each with or without
regard to case. Equality and globs ignore the case of ASCII letters only; containment compares the
full lowercase forms.
-/

namespace DepSolver

/-- The ways in which a text may answer to a pattern. -/
inductive CompareKind where
  | eq
  | glob
  | substr
deriving DecidableEq, Repr

/-- A way of comparing, and whether case is ignored. -/
structure Comparison where
  kind : CompareKind := .eq
  ignoreCase : Bool := false
deriving DecidableEq, Repr, Inhabited

namespace Comparison

/-- Equality. -/
def exact : Comparison := {}

/-- Fitting a glob pattern. -/
def glob : Comparison := { kind := .glob }

/-- Whether one text occurs inside another. -/
def occursIn (piece : List Char) : List Char → Bool
  | [] => piece.isEmpty
  | c :: s => piece.isPrefixOf (c :: s) || occursIn piece s

def holds (cmp : Comparison) (pattern value : String) : Bool :=
  match cmp.kind, cmp.ignoreCase with
  | .eq, false => value == pattern
  | .eq, true => value.toList.map Char.toLower == pattern.toList.map Char.toLower
  | .substr, false => occursIn pattern.toList value.toList
  | .substr, true => occursIn (Text.lowercase pattern.toList) (Text.lowercase value.toList)
  | .glob, ignoreCase => Text.fitsGlob ignoreCase pattern value

end Comparison

end DepSolver
