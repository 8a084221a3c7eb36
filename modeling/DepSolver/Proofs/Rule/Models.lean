import DepSolver.Rule.Set

/-!
# What rules mean

A rule is a disjunction of literals, and rules are meant together: all of them have to hold at
once. An `Assignment` says of every package whether it is present, so it makes every literal true
or false, and *models* of some rules are the assignments that satisfy each of them.

Everything that is said about the search is said against this reading. The search itself knows only
partial decisions; what is left undecided is read as left out.
-/

namespace DepSolver

/-- The number of a package, taken negatively, asks for none to be present. -/
theorem not_pos_neg {id : PackageId} (h : 0 < id) : ¬(0 : Literal) < -id :=
  Int.not_lt.mpr (Int.le_of_lt (Int.neg_neg_of_pos h))

/-- Which packages are present. -/
abbrev Assignment := PackageId → Bool

namespace Assignment

/-- Whether a literal is true. -/
def holds (α : Assignment) (l : Literal) : Bool := if 0 < l then α l else !α (-l)

/-- Whether some literal of a rule is true. -/
def satisfies (α : Assignment) (r : Rule) : Bool := r.literals.any α.holds

/-- Whether every rule of some is satisfied. -/
def Models (α : Assignment) (rules : List Rule) : Prop := ∀ r ∈ rules, α.satisfies r = true

/-- Whether every rule that may not be given up is satisfied. -/
def ModelsHard (α : Assignment) (rules : List Rule) : Prop :=
  ∀ r ∈ rules, r.weak = false → α.satisfies r = true

theorem holds_of_pos {α : Assignment} {l : Literal} (h : 0 < l) : α.holds l = α l := if_pos h

theorem holds_of_neg {α : Assignment} {l : Literal} (h : l < 0) : α.holds l = !α (-l) :=
  if_neg (Int.not_lt.mpr (Int.le_of_lt h))

/-- A package is either present or absent. -/
theorem holds_neg {α : Assignment} {l : Literal} (h : l ≠ 0) : α.holds (-l) = !α.holds l := by
  rcases Int.lt_or_gt_of_ne h with hl | hl
  · rw [holds_of_pos (Int.neg_pos_of_neg hl), holds_of_neg hl, Bool.not_not]
  · rw [holds_of_neg (Int.neg_neg_of_pos hl), holds_of_pos hl, Int.neg_neg]

theorem satisfies_iff {α : Assignment} {r : Rule} :
    α.satisfies r = true ↔ ∃ l ∈ r.literals, α.holds l = true := List.any_eq_true

theorem satisfies_congr {α : Assignment} {r s : Rule}
    (h : ∀ l, l ∈ r.literals ↔ l ∈ s.literals) : α.satisfies r = α.satisfies s := by
  rw [Bool.eq_iff_iff, satisfies_iff, satisfies_iff]
  simp only [h]

theorem Models.mono {α : Assignment} {rules more : List Rule} (h : α.Models more)
    (hsub : ∀ r ∈ rules, r ∈ more) : α.Models rules := fun r hr => h r (hsub r hr)

end Assignment

/-- Whether some assignment satisfies all rules of a list together. -/
def Satisfiable (rules : List Rule) : Prop := ∃ α : Assignment, α.Models rules

theorem Satisfiable.mono {rules more : List Rule} (h : Satisfiable more)
    (hsub : ∀ r ∈ rules, r ∈ more) : Satisfiable rules := by
  obtain ⟨α, hα⟩ := h
  exact ⟨α, hα.mono hsub⟩

end DepSolver
