/-!
# Glob patterns

A pattern is read into a row of pieces before it is matched:

* `?` stands for one character and `*` for any number of them, slashes included;
* `**` must be a whole path component. It stands for any number of whole components, and at the end
  of a pattern for anything;
* `[abc]`, `[a-z]` and `[!abc]` stand for one character in or outside a set. The first character of
  a set is a member even if it is a closing bracket.

A pattern with an unclosed set, or with stars in any other arrangement, is no pattern.

A text is matched against the pieces from the last one to the first. The pieces from some point on
fit certain ends of the text, and these decide which ends fit if one more piece is put in front. So
each piece walks the text once, however many stars there are.

Case may be ignored. Then single ASCII letters compare without their case, and so does a range both
of whose ends are ASCII letters.
-/

namespace DepSolver.Text

namespace Glob

/-- A member of a set. -/
inductive Member where
  | single (c : Char)
  | range (first last : Char)
deriving DecidableEq, Repr

/-- A piece of a pattern. -/
inductive Piece where
  | char (c : Char)
  | anyChar
  | anyOf (members : List Member)
  | noneOf (members : List Member)
  /-- Any number of characters. -/
  | anything
  /-- Any number of whole path components. -/
  | components
deriving DecidableEq, Repr

/-- The members of a set, from the text between its brackets. -/
def membersOf : List Char → List Member
  | a :: '-' :: b :: rest => .range a b :: membersOf rest
  | a :: rest => .single a :: membersOf rest
  | [] => []

/-- The text up to the first closing bracket that is not the first character, and what follows the
bracket. -/
def splitSet? : List Char → Option (List Char × List Char)
  | [] => none
  | first :: rest =>
    if rest.contains ']' then
      some (first :: rest.takeWhile (· != ']'), (rest.dropWhile (· != ']')).drop 1)
    else none

theorem length_of_splitSet? {s set after : List Char} (h : splitSet? s = some (set, after)) :
    after.length < s.length := by
  cases s with
  | nil => simp [splitSet?] at h
  | cons first rest =>
    simp only [splitSet?] at h
    split at h
    · simp only [Option.some.injEq, Prod.mk.injEq] at h
      obtain ⟨-, rfl⟩ := h
      have := (List.dropWhile_sublist (· != ']') (l := rest)).length_le
      simp only [List.length_drop, List.length_cons]
      omega
    · simp at h

/-- Reads a pattern. `boundary` says whether a path component may start here: at the start of the
pattern and after a slash. -/
def readFrom? (boundary : Bool) (s : List Char) : Option (List Piece) :=
  match s with
  | [] => some []
  | '?' :: rest => (readFrom? false rest).map (.anyChar :: ·)
  | '*' :: '*' :: '*' :: _ => none
  | ['*', '*'] => if boundary then some [.components] else none
  | '*' :: '*' :: '/' :: rest =>
    if boundary then (readFrom? true rest).map (.components :: ·) else none
  | '*' :: '*' :: _ => none
  | '*' :: rest => (readFrom? false rest).map (.anything :: ·)
  | '[' :: '!' :: rest =>
    match _h : splitSet? rest with
    | some (set, after) => (readFrom? false after).map (.noneOf (membersOf set) :: ·)
    | none => none
  | '[' :: rest =>
    match _h : splitSet? rest with
    | some (set, after) => (readFrom? false after).map (.anyOf (membersOf set) :: ·)
    | none => none
  | c :: rest => (readFrom? (c == '/') rest).map (.char c :: ·)
termination_by s.length
decreasing_by
  all_goals simp only [List.length_cons]
  all_goals first
    | omega
    | have := length_of_splitSet? _h; omega

def read? (pattern : String) : Option (List Piece) := readFrom? true pattern.toList

/-- The lowercase form of an ASCII letter; other characters stay. -/
def lowerAscii (c : Char) : Char := c.toLower

/-- Whether two characters are the same, up to the case of ASCII letters if it is ignored. -/
def sameChar (ignoreCase : Bool) (a b : Char) : Bool :=
  a == b || (ignoreCase && lowerAscii a == lowerAscii b)

def Member.admits (ignoreCase : Bool) (c : Char) : Member → Bool
  | .single a => sameChar ignoreCase c a
  | .range a b =>
    (a ≤ c && c ≤ b) ||
      (ignoreCase && a.isAlpha && b.isAlpha && lowerAscii a ≤ lowerAscii c
        && lowerAscii c ≤ lowerAscii b)

def Piece.admits (ignoreCase : Bool) (c : Char) : Piece → Bool
  | .char a => sameChar ignoreCase c a
  | .anyChar => true
  | .anyOf members => members.any (Member.admits ignoreCase c)
  | .noneOf members => !members.any (Member.admits ignoreCase c)
  | .anything | .components => false

/-- For every end of a text, the longest first, whether it or a shorter one fits; `fitting` tells
the ends that fit. -/
def orShorter : List Bool → List Bool
  | [] => []
  | fits :: shorter =>
    let rest := orShorter shorter
    (fits || rest.headD false) :: rest

/-- For every end of `s`, the longest first, whether it fits once at least one path component is
taken off its front, or everything is; `fitting` tells the ends of `s` that fit. -/
def afterComponents : List Char → List Bool → List Bool
  | c :: s, _ :: shorter =>
    let rest := afterComponents s shorter
    ((c == '/' && shorter.headD false) || rest.headD false) :: rest
  | _, fitting => fitting

/-- For every end of `s`, the longest first, whether it fits a piece and all that follows; `fitting`
tells the ends of `s` that fit what follows the piece. -/
def Piece.extend (ignoreCase : Bool) (piece : Piece) (s : List Char) (fitting : List Bool) :
    List Bool :=
  match piece with
  | .anything => orShorter fitting
  | .components => List.zipWith (· || ·) fitting (afterComponents s fitting)
  | _ =>
    List.zipWith (fun c fits => piece.admits ignoreCase c && fits) s (fitting.drop 1) ++ [false]

/-- For every end of `s`, the longest first, whether it is empty. -/
def emptyEnds (s : List Char) : List Bool := s.map (fun _ => false) ++ [true]

/-- Whether a row of pieces fits the whole of a text. -/
def fits (ignoreCase : Bool) (pieces : List Piece) (s : List Char) : Bool :=
  (pieces.foldr (fun piece fitting => piece.extend ignoreCase s fitting) (emptyEnds s)).headD false

end Glob

/-- Whether a text fits a glob pattern. What is no pattern fits nothing. -/
def fitsGlob (ignoreCase : Bool) (pattern text : String) : Bool :=
  match Glob.read? pattern with
  | some pieces => Glob.fits ignoreCase pieces text.toList
  | none => false

end DepSolver.Text
