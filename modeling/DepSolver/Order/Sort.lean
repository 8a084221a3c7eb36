/-!
# Sorting

`sortBy` orders a list by a comparison. It takes the elements in turn and puts each behind the last
one that it does not come before, so that elements which compare equal keep the order in which they
came.

A comparison need not be consistent: it may put one element before a second, the second before a
third, and the third before the first. Up to `insertionLimit` elements are put in some order even
then. To sort more takes a comparison that orders them; with any other the order is left open, and
the sort may break off. `sorts` tells which lists can be sorted.

`leastBy?` and `greatestBy?` pick one element, whatever the comparison: of several smallest ones the
first, of several greatest ones the last.
-/

namespace DepSolver

variable {α : Type}

/-- Puts an element into a descending list, before the first one that it does not come before. -/
def insertBy (cmp : α → α → Ordering) (x : α) : List α → List α
  | [] => [x]
  | y :: ys => if cmp x y = .lt then y :: insertBy cmp x ys else x :: y :: ys

/-- The elements in ascending order; equal ones keep their order. -/
def sortBy (cmp : α → α → Ordering) (xs : List α) : List α :=
  (xs.foldl (fun sorted x => insertBy cmp x sorted) []).reverse

/-- How many elements are sorted whatever the comparison says of them. -/
def insertionLimit : Nat := 20

/-- Whether a list can be sorted: it is short, or its elements are in order in the end. -/
def sorts (cmp : α → α → Ordering) (xs : List α) : Bool :=
  xs.length ≤ insertionLimit || (sortBy cmp xs).Pairwise fun a b => cmp a b ≠ .gt

/-- The first of the least elements. -/
def leastBy? (cmp : α → α → Ordering) : List α → Option α
  | [] => none
  | x :: xs => some (xs.foldl (fun best y => if cmp best y = .gt then y else best) x)

/-- The last of the greatest elements. -/
def greatestBy? (cmp : α → α → Ordering) : List α → Option α
  | [] => none
  | x :: xs => some (xs.foldl (fun best y => if cmp best y = .gt then best else y) x)

end DepSolver
