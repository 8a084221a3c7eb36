import Std.Data.TreeMap
import DepSolver.Rule.Basic

/-!
# Rule sets

A `RuleSet` holds rules in the order in which they were first added; a rule's number is its
position. Rules of one kind, one job entry and the same literals are one rule. It is weak only if
it was weak each time it was added. Beside the rules goes what finds them: their numbers by kind,
and the number of each by what makes it one rule.
-/

namespace DepSolver

/-- What makes two rules one: kind, job entry and literals, as a row of numbers. -/
abbrev RuleKey := List Int

def Rule.key (r : Rule) : RuleKey :=
  let job : Int :=
    match r.job with
    | some i => i
    | none => -1
  (r.kind.ctorIdx : Int) :: job :: r.sortedLiterals

/-- Whether the number of every rule is its position. -/
def Numbered (rules : Array Rule) : Prop :=
  ∀ (i : Nat) (r : Rule), rules[i]? = some r → r.id = i

theorem numbered_empty : Numbered #[] := by
  intro i r h
  rw [Array.getElem?_empty] at h
  exact absurd h (by simp)

theorem Numbered.push {rules : Array Rule} (h : Numbered rules) (r : Rule) :
    Numbered (rules.push { r with id := rules.size }) := by
  intro i t ht
  rw [Array.getElem?_push] at ht
  split at ht
  · rename_i hi
    rw [← Option.some.inj ht, hi]
  · exact h i t ht

theorem Numbered.modify {rules : Array Rule} (h : Numbered rules) (id : Nat) {f : Rule → Rule}
    (hf : ∀ r, (f r).id = r.id) : Numbered (rules.modify id f) := by
  intro i t ht
  rw [Array.getElem?_modify] at ht
  split at ht
  · obtain ⟨r, hr, rfl⟩ := Option.map_eq_some_iff.mp ht
    rw [hf, h i r hr]
  · exact h i t ht

/-- Numbered rules without duplicates. -/
structure RuleSet where
  rules : Array Rule := .empty
  /-- The numbers of the rules of each kind, ascending, by the place of the kind among all kinds. -/
  byKind : Std.TreeMap Nat (Array Nat) := {}
  /-- The number of each rule by its key. -/
  index : Std.TreeMap RuleKey Nat := {}
  /-- The number of a rule is its position. -/
  numbered : Numbered rules := by exact numbered_empty

/-- How many rules there are, in all and by what they are about. -/
structure RuleStats where
  total : Nat
  assertions : Nat
  job : Nat
  best : Nat
  update : Nat
  distUpgrade : Nat
  requires : Nat
  conflict : Nat
  sameName : Nat
  obsoletes : Nat
deriving DecidableEq, Repr

namespace RuleSet

def empty : RuleSet := {}

instance : Inhabited RuleSet := ⟨empty⟩

def size (s : RuleSet) : Nat := s.rules.size

/-- The rules in the order of their numbers. -/
def toList (s : RuleSet) : List Rule := s.rules.toList

def get? (s : RuleSet) (id : Nat) : Option Rule := s.rules[id]?

/-- Adds a rule, unless it is there already, and returns its number. -/
def add (s : RuleSet) (r : Rule) : Nat × RuleSet :=
  match s.index.get? r.key with
  | some id =>
    -- added again, so it is hard from now on unless both are weak
    (id,
      { s with
        rules := s.rules.modify id fun known => { known with weak := known.weak && r.weak }
        numbered := s.numbered.modify id fun _ => rfl })
  | none =>
    (s.size,
      { rules := s.rules.push { r with id := s.size }
        byKind := s.byKind.alter r.kind.ctorIdx fun ids => some ((ids.getD .empty).push s.size)
        index := s.index.insert r.key s.size
        numbered := s.numbered.push r })

/-- Adds rules one after the other. -/
def addMany (s : RuleSet) (rules : List Rule) : RuleSet := rules.foldl (fun s r => (s.add r).2) s

def ofList (rules : List Rule) : RuleSet := empty.addMany rules

/-- Puts a rule out of force, or back into it. -/
def setDisabled (s : RuleSet) (id : Nat) (disabled : Bool) : RuleSet :=
  { s with
    rules := s.rules.modify id fun r => { r with disabled }
    numbered := s.numbered.modify id fun _ => rfl }

/-- Puts a rule out of force. -/
def disable (s : RuleSet) (id : Nat) : RuleSet := s.setDisabled id true

/-- Puts a rule back into force. -/
def enable (s : RuleSet) (id : Nat) : RuleSet := s.setDisabled id false

/-- The rules in force. -/
def enabled (s : RuleSet) : List Rule := s.toList.filter Rule.isEnabled

/-- The numbers of the rules in force. -/
def enabledIds (s : RuleSet) : List Nat := s.enabled.map (·.id)

/-- The numbers of the rules out of force. -/
def disabledIds (s : RuleSet) : List Nat := (s.toList.filter (·.disabled)).map (·.id)

/-- The numbers of the rules of a kind, ascending. -/
def idsOfKind (s : RuleSet) (kind : RuleKind) : Array Nat := s.byKind[kind.ctorIdx]?.getD .empty

/-- The rules of a kind, in the order of their numbers. -/
def ofKind (s : RuleSet) (kind : RuleKind) : List Rule :=
  (s.idsOfKind kind).toList.filterMap s.get?

/-- The rules that leave only one way to satisfy them. -/
def assertions (s : RuleSet) : List Rule := s.toList.filter Rule.isAssertion

def containing (s : RuleSet) (l : Literal) : List Rule :=
  s.toList.filter fun r => r.literals.contains l

def countKinds (s : RuleSet) (kinds : List RuleKind) : Nat :=
  s.toList.countP fun r => kinds.contains r.kind

/-- The numbers of rules by what they are about. -/
def stats (s : RuleSet) : RuleStats where
  total := s.size
  assertions := s.assertions.length
  job := s.countKinds [.job, .jobNothingProvides, .jobUnknownPackage]
  best := s.countKinds [.best]
  update := s.countKinds [.update]
  distUpgrade := s.countKinds [.distUpgrade]
  requires := s.countKinds [.packageRequires, .packageNothingProvides]
  conflict := s.countKinds [.packageConflict, .packageSelfConflict]
  sameName := s.countKinds [.packageSameName]
  obsoletes := s.countKinds [.packageObsoletes, .packageInstalledObsoletes]

end RuleSet

end DepSolver
