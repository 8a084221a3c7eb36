/-!
# Sets of packages

Packages are named by positive numbers, and a `PackageSet` is a bitmap over them: bit `id % 64` of
word `id / 64` says whether `id` is a member. Bits beyond the last word count as unset, so sets of
different lengths may hold the same packages, and every operation treats a missing word as zero.

A set is seen through membership, `id ∈ s`; numbers that name no package are never members.
-/

namespace DepSolver

/-- The number of a package, counted from 1. Zero and negative numbers name no package. -/
abbrev PackageId := Int

/-- A finite set of packages. -/
structure PackageSet where
  /-- The bitmap, 64 packages a word. -/
  words : Array UInt64 := .empty
deriving Inhabited, Repr

namespace PackageSet

def empty : PackageSet := {}

/-- An empty set whose bitmap has room for packages up to `max`. -/
def withCapacity (max : Nat) : PackageSet := { words := Array.replicate (max / 64 + 1) 0 }

/-- The word that holds only the bit of a number. -/
def mask (n : Nat) : UInt64 := 1 <<< (UInt64.ofNat (n % 64))

/-- The word at an index, zero beyond the end of the bitmap. -/
def word (s : PackageSet) (i : Nat) : UInt64 := s.words.getD i 0

def bit (s : PackageSet) (n : Nat) : Bool := s.word (n / 64) &&& mask n != 0

def contains (s : PackageSet) (id : PackageId) : Bool := 0 < id && s.bit id.toNat

instance : Membership PackageId PackageSet where
  mem s id := s.contains id = true

instance (id : PackageId) (s : PackageSet) : Decidable (id ∈ s) :=
  inferInstanceAs (Decidable (s.contains id = true))

/-- Adds a package. Numbers that name no package are ignored. -/
def insert (s : PackageSet) (id : PackageId) : PackageSet :=
  if 0 < id then
    let n := id.toNat
    { words := (s.words.rightpad (n / 64 + 1) 0).modify (n / 64) (· ||| mask n) }
  else s

/-- Takes a package out. -/
def erase (s : PackageSet) (id : PackageId) : PackageSet :=
  if 0 < id then
    let n := id.toNat
    { words := s.words.modify (n / 64) (· &&& ~~~mask n) }
  else s

def insertMany (s : PackageSet) (ids : List PackageId) : PackageSet := ids.foldl insert s

def ofList (ids : List PackageId) : PackageSet := empty.insertMany ids

def union (s t : PackageSet) : PackageSet :=
  { words := s.words.zipWithAll (fun a b => a.getD 0 ||| b.getD 0) t.words }

/-- The packages of both sets. -/
def inter (s t : PackageSet) : PackageSet :=
  { words := s.words.mapIdx fun i w => w &&& t.word i }

/-- The packages of the first set that are not in the second. -/
def diff (s t : PackageSet) : PackageSet :=
  { words := s.words.mapIdx fun i w => w &&& ~~~t.word i }

/-- The number of bits set in a word. -/
def bitCount (w : UInt64) : Nat := (List.range 64).countP fun k => w &&& mask k != 0

def size (s : PackageSet) : Nat := s.words.toList.foldl (fun n w => n + bitCount w) 0

def isEmpty (s : PackageSet) : Bool := s.words.all (· == 0)

/-- The number of the lowest bit set in a word, 64 if none is. -/
def trailingZeros (w : UInt64) : Nat := ((List.range 64).find? w.toNat.testBit).getD 64

/-- The lowest bit set in some words, the first of which is word `i` of a bitmap. Empty words are
passed over. -/
def lowestBit? (i : Nat) : List UInt64 → Option Nat
  | [] => none
  | w :: ws => if w = 0 then lowestBit? (i + 1) ws else some (64 * i + trailingZeros w)

/-- The first set bit at `n` or after. In the word where the search begins, the bits before `n` are
masked out. -/
def nextBit? (s : PackageSet) (n : Nat) : Option Nat :=
  match s.words.toList.drop (n / 64) with
  | [] => none
  | w :: ws => lowestBit? (n / 64) ((w &&& (~~~0 <<< UInt64.ofNat (n % 64))) :: ws)

/-- The least member greater than `after`. -/
def next? (s : PackageSet) (after : PackageId) : Option PackageId :=
  (s.nextBit? (after.toNat + 1)).map fun n => (n : Int)

/-- The members greater than `after`, ascending, at most a number of them. -/
def membersAfter (s : PackageSet) : Nat → PackageId → List PackageId
  | 0, _ => []
  | left + 1, after =>
    match s.next? after with
    | none => []
    | some id => id :: s.membersAfter left id

/-- The members, ascending. There are no more of them than bits. -/
def toList (s : PackageSet) : List PackageId := s.membersAfter (64 * s.words.size) 0

/-- Two sets are equal when they have the same members, whatever the lengths of their bitmaps. -/
def beq (s t : PackageSet) : Bool :=
  (List.range (max s.words.size t.words.size)).all fun i => s.word i == t.word i

instance : BEq PackageSet := ⟨beq⟩

/-- The members in braces, as shown to a developer. -/
def toText (s : PackageSet) : String :=
  "\x7b" ++ ", ".intercalate (s.toList.map toString) ++ "\x7d"

end PackageSet

end DepSolver
