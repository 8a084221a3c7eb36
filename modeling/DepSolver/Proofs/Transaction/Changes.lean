import DepSolver.Proofs.Order.Sort
import DepSolver.Proofs.Universe.Index
import DepSolver.Transaction

/-!
# Every package that comes or goes has a step

The steps of a transaction are made package by package: one for each that comes in, followed by
those whose place it takes, and at the end those that nothing replaces. Whatever is paired with
whatever, the packages with a step are those that are kept and not installed or installed and not
kept. So a transaction without steps is one that leaves the installed packages as they are.
-/

namespace DepSolver

namespace Transaction

variable {u : Universe} {kept multiversion : PackageSet} {id : PackageId} {p : Package}

theorem mem_packagesOf {ids : PackageSet} :
    (id, p) ∈ packagesOf u ids ↔ ids.contains id = true ∧ u.package? id = some p := by
  unfold packagesOf
  rw [List.mem_filterMap]
  refine ⟨?_, ?_⟩
  · intro h
    obtain ⟨x, hx, hpair⟩ := h
    obtain ⟨q, hq, heq⟩ := Option.map_eq_some_iff.mp hpair
    obtain ⟨rfl, rfl⟩ := Prod.mk.inj heq
    exact ⟨PackageSet.mem_toList.mp hx, hq⟩
  · intro h
    obtain ⟨hid, hp⟩ := h
    refine ⟨id, PackageSet.mem_toList.mpr hid, ?_⟩
    rw [hp]
    rfl

theorem mem_of_replacement? {incoming : List (PackageId × Package)} {r : PackageId × Bool}
    (h : replacement? multiversion incoming p = some r) : ∃ q, (r.1, q) ∈ incoming := by
  unfold replacement? at h
  dsimp only at h
  split at h
  · rename_i new hnew
    rw [← Option.some.inj h]
    exact ⟨new.2, (List.mem_filter.mp (mem_of_greatestBy? hnew)).1⟩
  · obtain ⟨new, hfind, rfl⟩ := Option.map_eq_some_iff.mp h
    exact ⟨new.2, List.mem_of_find?_eq_some hfind⟩

/-- The packages that come in. -/
def incomingOf (u : Universe) (kept : PackageSet) : List (PackageId × Package) :=
  packagesOf u (kept.diff u.installed)

/-- The packages that go out, each with its replacement. -/
def outgoingOf (u : Universe) (kept multiversion : PackageSet) : List Outgoing :=
  (packagesOf u (u.installed.diff kept)).map fun p =>
    { id := p.1, package := p.2
      replacement := replacement? multiversion (incomingOf u kept) p.2 }

theorem steps_ofKept (u : Universe) (kept multiversion : PackageSet) :
    (ofKept u kept multiversion).steps =
      (incomingOf u kept).flatMap (incomingSteps multiversion (outgoingOf u kept multiversion)) ++
        ((outgoingOf u kept multiversion).filter fun o => o.replacement.isNone).map fun o =>
          { id := o.id, kind := .erase, related := [] } := rfl

theorem mem_incomingOf : (id, p) ∈ incomingOf u kept ↔
    (kept.contains id = true ∧ u.isInstalled id = false) ∧ u.package? id = some p := by
  unfold incomingOf
  rw [mem_packagesOf, PackageSet.contains_diff, ← Bool.not_eq_true (u.installed.contains id),
    Universe.installed_contains_iff, Bool.not_eq_true]

theorem exists_mem_outgoingOf : (∃ o ∈ outgoingOf u kept multiversion, o.id = id) ↔
    (u.isInstalled id = true ∧ kept.contains id = false) ∧ ∃ p, u.package? id = some p := by
  have hmem : ∀ p, (id, p) ∈ packagesOf u (u.installed.diff kept) ↔
      (u.isInstalled id = true ∧ kept.contains id = false) ∧ u.package? id = some p := by
    intro p
    rw [mem_packagesOf, PackageSet.contains_diff, Universe.installed_contains_iff]
  unfold outgoingOf
  refine ⟨?_, ?_⟩
  · intro h
    obtain ⟨o, ho, rfl⟩ := h
    obtain ⟨⟨x, p⟩, hx, rfl⟩ := List.mem_map.mp ho
    obtain ⟨hout, hp⟩ := (hmem p).mp hx
    exact ⟨hout, p, hp⟩
  · intro h
    obtain ⟨hout, p, hp⟩ := h
    exact ⟨_, List.mem_map_of_mem ((hmem p).mpr ⟨hout, hp⟩), rfl⟩

/-- Every package that goes out has a step: its replacement's, or one of its own. -/
theorem exists_step_of_outgoing {o : Outgoing} (h : o ∈ outgoingOf u kept multiversion) :
    ∃ step ∈ (ofKept u kept multiversion).steps, step.id = o.id := by
  rw [steps_ofKept]
  cases hreplacement : o.replacement with
  | none =>
      refine ⟨_, List.mem_append_right _ (List.mem_map_of_mem (List.mem_filter.mpr ⟨h, ?_⟩)), rfl⟩
      rw [hreplacement]
      rfl
  | some r =>
      -- the replacement comes in, and its step is followed by one for this package
      obtain ⟨q, hq⟩ : ∃ q, (r.1, q) ∈ incomingOf u kept := by
        obtain ⟨x, -, rfl⟩ := List.mem_map.mp h
        exact mem_of_replacement? hreplacement
      refine ⟨replacedStep r.1 q o, List.mem_append_left _ (List.mem_flatMap.mpr ⟨_, hq, ?_⟩), rfl⟩
      refine List.mem_cons_of_mem _ (List.mem_map_of_mem (List.mem_filter.mpr ⟨h, ?_⟩))
      rw [hreplacement]
      exact beq_self_eq_true r.1

/--
**Every package that comes or goes has a step**, and no other has.

A package comes in if it is kept and not installed; it goes out if it is installed and not kept.
-/
theorem exists_step_iff : (∃ step ∈ (ofKept u kept multiversion).steps, step.id = id) ↔
    (∃ p, u.package? id = some p) ∧
      ((kept.contains id = true ∧ u.isInstalled id = false) ∨
        (u.isInstalled id = true ∧ kept.contains id = false)) := by
  refine ⟨?_, ?_⟩
  · intro h
    obtain ⟨step, hstep, rfl⟩ := h
    have houtgoing : ∀ o ∈ outgoingOf u kept multiversion, (∃ p, u.package? o.id = some p) ∧
        (u.isInstalled o.id = true ∧ kept.contains o.id = false) := by
      intro o ho
      exact (exists_mem_outgoingOf.mp ⟨o, ho, rfl⟩).symm
    rw [steps_ofKept, List.mem_append] at hstep
    rcases hstep with hstep | hstep
    · -- a step of a package that comes in, or of one whose place it takes
      obtain ⟨⟨x, p⟩, hx, hstep⟩ := List.mem_flatMap.mp hstep
      rcases List.mem_cons.mp hstep with rfl | hstep
      · obtain ⟨hin, hp⟩ := mem_incomingOf.mp hx
        exact ⟨⟨p, hp⟩, .inl hin⟩
      · obtain ⟨o, ho, rfl⟩ := List.mem_map.mp hstep
        exact (houtgoing o (List.mem_filter.mp ho).1).imp_right .inr
    · obtain ⟨o, ho, rfl⟩ := List.mem_map.mp hstep
      exact (houtgoing o (List.mem_filter.mp ho).1).imp_right .inr
  · intro h
    obtain ⟨⟨p, hp⟩, hin | hout⟩ := h
    · have hmem := mem_incomingOf.mpr ⟨hin, hp⟩
      rw [steps_ofKept]
      exact ⟨_, List.mem_append_left _ (List.mem_flatMap.mpr ⟨_, hmem, List.mem_cons_self ..⟩), rfl⟩
    · have hmem : ∃ o ∈ outgoingOf u kept multiversion, o.id = id :=
        exists_mem_outgoingOf.mpr ⟨hout, p, hp⟩
      obtain ⟨o, ho, rfl⟩ := hmem
      exact exists_step_of_outgoing ho

/-- **A transaction without steps** keeps exactly the installed packages. -/
theorem steps_eq_nil_iff : (ofKept u kept multiversion).steps = [] ↔
    ∀ id p, u.package? id = some p → (kept.contains id = true ↔ u.isInstalled id = true) := by
  rw [List.eq_nil_iff_forall_not_mem]
  refine ⟨?_, ?_⟩
  · intro hnone id p hp
    have hiff : (∃ step ∈ (ofKept u kept multiversion).steps, step.id = id) ↔ _ := exists_step_iff
    have hsame : ¬((kept.contains id = true ∧ u.isInstalled id = false) ∨
        (u.isInstalled id = true ∧ kept.contains id = false)) := by
      intro hdiff
      obtain ⟨step, hstep, -⟩ := hiff.mpr ⟨⟨p, hp⟩, hdiff⟩
      exact hnone step hstep
    rw [not_or, not_and, not_and, Bool.not_eq_false, Bool.not_eq_false] at hsame
    exact ⟨hsame.1, hsame.2⟩
  · intro hsame step hstep
    obtain ⟨⟨p, hp⟩, hdiff⟩ := exists_step_iff.mp ⟨step, hstep, rfl⟩
    have hiff := hsame step.id p hp
    rcases hdiff with ⟨hkept, hnot⟩ | ⟨hinstalled, hnot⟩
    · rw [hiff.mp hkept] at hnot
      exact absurd hnot (by simp)
    · rw [hiff.mpr hinstalled] at hnot
      exact absurd hnot (by simp)

end Transaction

end DepSolver
