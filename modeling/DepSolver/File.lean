/-!
# Files

What the outer layer finds at a path. The library never opens files itself: it says which paths it
wants to know about, and is given their contents.
-/

namespace DepSolver

/-- What is found at a path. -/
inductive FileContent where
  | missing
  /-- Something is there, but it cannot be read as a text. -/
  | unreadable
  | text (s : String)
deriving DecidableEq, Repr, Inhabited

namespace FileContent

/-- The text that is found, if it is one. -/
def text? : FileContent → Option String
  | text s => some s
  | missing | unreadable => none

end FileContent

end DepSolver
