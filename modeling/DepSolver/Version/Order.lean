/-!
# The order of version texts

A version text is read as a row of segments: a maximal run of ASCII digits, a maximal run of ASCII
letters, a `~` or a `^`. Every other character only separates. `Version.compare` walks both texts
at once, one segment at a time, and the first segments that differ decide:

* a run of digits compares by value, and is newer than a run of letters;
* a run of letters compares character by character;
* `~` sorts before everything, the end of the text included;
* `^` sorts after the end of the text and before every run.
-/

namespace DepSolver.Version

def isSegmentChar (c : Char) : Bool :=
  c.isAlphanum || c == '~' || c == '^'

/-- The text from its next segment on. -/
def skipSeparators (s : List Char) : List Char :=
  s.dropWhile fun c => !isSegmentChar c

theorem length_skipSeparators (s : List Char) : (skipSeparators s).length ≤ s.length :=
  (List.dropWhile_sublist _).length_le

/-- Compares two runs of one kind character by character; a proper beginning is smaller. -/
def compareLetters : List Char → List Char → Ordering
  | [], [] => .eq
  | [], _ :: _ => .lt
  | _ :: _, [] => .gt
  | a :: as, b :: bs => (compare a.toNat b.toNat).then (compareLetters as bs)

/-- Compares two runs of digits by value, whatever their size: without leading zeros the longer run
is the greater number, and runs of one length compare digit by digit. -/
def compareDigits (a b : List Char) : Ordering :=
  let a := a.dropWhile (· == '0')
  let b := b.dropWhile (· == '0')
  (compare a.length b.length).then (compareLetters a b)

/-- Compares two version texts segment by segment. -/
def compareChars (s t : List Char) : Ordering :=
  match _hs : skipSeparators s, _ht : skipSeparators t with
  | [], [] => .eq
  -- a tilde comes before the end of a text, a caret after it but before any segment
  | '~' :: s', '~' :: t' =>
    have := length_skipSeparators s
    have := length_skipSeparators t
    compareChars s' t'
  | '~' :: _, _ => .lt
  | _, '~' :: _ => .gt
  | [], _ :: _ => .lt
  | _ :: _, [] => .gt
  | '^' :: s', '^' :: t' =>
    have := length_skipSeparators s
    have := length_skipSeparators t
    compareChars s' t'
  | '^' :: _, _ :: _ => .lt
  | _ :: _, '^' :: _ => .gt
  | a :: s', b :: t' =>
    have := length_skipSeparators s
    have := length_skipSeparators t
    have := (List.dropWhile_sublist Char.isDigit (l := s')).length_le
    have := (List.dropWhile_sublist Char.isDigit (l := t')).length_le
    have := (List.dropWhile_sublist Char.isAlpha (l := s')).length_le
    have := (List.dropWhile_sublist Char.isAlpha (l := t')).length_le
    if a.isDigit then
      if b.isDigit then
        (compareDigits (a :: s'.takeWhile Char.isDigit) (b :: t'.takeWhile Char.isDigit)).then
          (compareChars (s'.dropWhile Char.isDigit) (t'.dropWhile Char.isDigit))
      else .gt
    else if b.isDigit then .lt
    else
      (compareLetters (a :: s'.takeWhile Char.isAlpha) (b :: t'.takeWhile Char.isAlpha)).then
        (compareChars (s'.dropWhile Char.isAlpha) (t'.dropWhile Char.isAlpha))
termination_by s.length + t.length
decreasing_by all_goals simp_all only [List.length_cons]; omega

def compare (a b : String) : Ordering := compareChars a.toList b.toList

end DepSolver.Version
