import DepSolver.Job
import DepSolver.Proofs.Universe.Index
import DepSolver.Proofs.Version.Tokens

/-!
# A version matches where it is provided

A relation is held against a version by `Relation.matchesEvr`, and against another relation by
`Relation.intersects`. The names of a job and what packages obsolete go by versions; what packages
require, conflict with and provide goes by relations. Both ways meet in the one provide that every
package has, its own name in exactly its own version.

There they agree, although they compare in opposite directions. To swap two triples swaps how they
compare, and that is true of triples without a release as well, for which little else is.
-/

namespace DepSolver

/-! ## Operators -/

namespace Operator

/-- Which of two ranges is named first makes no difference. -/
theorem overlaps_swap (op₁ op₂ : Operator) (o : Ordering) :
    op₂.overlaps op₁ o.swap = op₁.overlaps op₂ o := by
  cases op₁ <;> cases op₂ <;> cases o <;> rfl

/-- A range overlaps with a single version if it admits that version. -/
theorem overlaps_equal (op : Operator) (o : Ordering) : op.overlaps .equal o = op.admits o.swap := by
  cases op <;> cases o <;> rfl

end Operator

/-! ## Relations -/

namespace Relation

theorem intersects_comm (r s : Relation) : r.intersects s = s.intersects r := by
  have hname : (r.name == s.name) = (s.name == r.name) := BEq.comm
  unfold intersects
  rw [hname]
  refine congrArg _ ?_
  cases r.constraint with
  | none => cases s.constraint <;> rfl
  | some c =>
    cases s.constraint with
    | none => rfl
    | some d =>
        obtain ⟨op₁, a⟩ := c
        obtain ⟨op₂, b⟩ := d
        have hswap : a.compare b = (b.compare a).swap := Std.OrientedCmp.eq_swap
        dsimp only
        rw [hswap, Operator.overlaps_swap]

/-- **A relation overlaps with one version of its name if the version matches.** -/
theorem intersects_equal (r : Relation) (e : Evr) :
    r.intersects ((ofName r.name).constrained .equal e) = r.matchesEvr e := by
  unfold intersects matchesEvr constrained ofName
  rw [beq_self_eq_true, Bool.true_and]
  cases r.constraint with
  | none => rfl
  | some c =>
      obtain ⟨op, wanted⟩ := c
      have hswap : e.compare wanted = (wanted.compare e).swap := Std.OrientedCmp.eq_swap
      dsimp only
      rw [Operator.overlaps_equal, hswap]

end Relation

/-! ## Packages and what stands for them -/

namespace Package

/-- The provide of a package's own name is met by what bears its name and matches its version. -/
theorem intersects_selfProvide (r : Relation) (p : Package) :
    r.intersects p.selfProvide = (r.name == p.name && r.matchesEvr p.evr) := by
  by_cases h : r.name = p.name
  · unfold selfProvide
    rw [← h, Relation.intersects_equal, beq_self_eq_true, Bool.true_and]
  · have hname : (r.name == p.name) = false := beq_false_of_ne h
    unfold Relation.intersects
    show ((r.name == p.name) && _) = _
    rw [hname, Bool.false_and, Bool.false_and]

theorem obsoletesPackage_eq (p q : Package) : p.obsoletesPackage q =
    (p.name != q.name && p.obsoletes.any (·.intersects q.selfProvide)) := by
  unfold obsoletesPackage
  simp only [intersects_selfProvide]

end Package

/-- A name stands for the packages whose provide of their own name it overlaps with. -/
theorem JobTarget.mem_resolve_name {u : Universe} {r : Relation} {arch : Option String}
    {id : PackageId} : id ∈ (JobTarget.name r arch).resolve u ↔
      u.isConsidered id = true ∧
        (∃ p, u.package? id = some p ∧ p.selfProvide.intersects r = true) ∧
          archFits u arch id = true := by
  unfold resolve
  rw [List.mem_filter, Universe.mem_packagesByName, Bool.and_eq_true]
  simp only [Relation.intersects_comm (Package.selfProvide _), Package.intersects_selfProvide,
    Bool.and_eq_true, beq_iff_eq]
  refine ⟨?_, ?_⟩
  · intro h
    obtain ⟨⟨hc, p, hp, hname⟩, hmatches, harch⟩ := h
    rw [hp] at hmatches
    exact ⟨hc, ⟨p, hp, hname.symm, hmatches⟩, harch⟩
  · intro h
    obtain ⟨hc, ⟨p, hp, hname, hmatches⟩, harch⟩ := h
    rw [hp]
    exact ⟨⟨hc, p, rfl, hname.symm⟩, hmatches, harch⟩

/--
**To match a version and to overlap with its provide are one.**

Overlapping is symmetric. A relation matches a version exactly if it overlaps with that very version
of its name, so obsoletes, which go by versions, could as well go by what every package provides of
itself. Hence what a job names is among what provides the name.
-/
theorem matches_where_provided :
    (∀ r s : Relation, r.intersects s = s.intersects r) ∧
    (∀ (r : Relation) (e : Evr),
      r.intersects ((Relation.ofName r.name).constrained .equal e) = r.matchesEvr e) ∧
    (∀ p q : Package, p.obsoletesPackage q =
      (p.name != q.name && p.obsoletes.any (·.intersects q.selfProvide))) ∧
    ∀ (u : Universe) (r : Relation) (arch : Option String),
      (JobTarget.name r arch).resolve u ⊆ (JobTarget.provides r arch).resolve u := by
  refine ⟨Relation.intersects_comm, Relation.intersects_equal, Package.obsoletesPackage_eq, ?_⟩
  intro u r arch id h
  obtain ⟨hc, ⟨p, hp, hself⟩, harch⟩ := JobTarget.mem_resolve_name.mp h
  have hmeets : Universe.meets p r = true := by
    unfold Universe.meets Package.allProvides
    rw [List.any_cons, hself, Bool.true_or, Bool.true_or]
  exact List.mem_filter.mpr ⟨Universe.mem_whatProvides.mpr ⟨hc, p, hp, hmeets⟩, harch⟩

end DepSolver
