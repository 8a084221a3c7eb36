import DepSolver.Text.Split

/-!
# Paths of files

A path is its text; its components stand between slashes. Empty components and single dots say
nothing and are dropped when a path is made absolute, while a double dot stays, for only the file
system knows where it leads.
-/

namespace DepSolver.Text

def pathComponents (path : String) : List String :=
  ((splitAll '/' path.toList).map String.ofList).filter fun c => c != "" && c != "."

def joinPath (directory file : String) : String :=
  if directory.isEmpty || directory.endsWith "/" then directory ++ file
  else directory ++ "/" ++ file

/-- The slashes that an absolute path starts with: two stay two, more are one. -/
def rootOf (path : String) : String :=
  if path.startsWith "//" && !path.startsWith "///" then "//" else "/"

/-- A path made absolute from the directory it is relative to. The empty path leads nowhere, and a
slash at the end is kept. -/
def absolutePath? (directory path : String) : Option String :=
  if path.isEmpty then none
  else
    let rest := "/".intercalate (pathComponents path)
    let full :=
      if path.startsWith "/" then rootOf path ++ rest
      else if rest.isEmpty then directory
      else joinPath directory rest
    some (if path.endsWith "/" && !full.endsWith "/" then full ++ "/" else full)

end DepSolver.Text
