import DepSolver.Proofs.Search.Decisions
import DepSolver.Proofs.Universe.Index
import DepSolver.Solution.Cleanup

/-!
# What is erased as left behind

`Solution.cleanUp` edits the decisions of a finished search, package by package. Each step erases
one package of which `isLeftBehind` says that nothing present needs it; `Cleans` is the relation of
any number of such steps.

Two things carry over from a step to all of them. Whatever was not erased is decided as before, for
the same reason; what was erased is told by its reason, and by where it stood when the search ended.
And if a requirement of a package that stays was met by another package, it still is: a package on
which alone it rested would have been needed.
-/

namespace DepSolver

namespace Solution

variable {s t : Solution} {id x : PackageId} {erased : PackageSet}

/-! ## One step -/

/-- The solution without one of its packages. -/
def eraseOne (s : Solution) (id : PackageId) : Solution :=
  { s with decisions := s.decisions.override (-id) .cleanDeps }

theorem isPresent_eraseOne (hid : 0 < id) (hx : 0 < x) :
    (s.eraseOne id).decisions.isPresent x = true ↔ s.decisions.isPresent x = true ∧ x ≠ id := by
  unfold eraseOne
  rw [Decisions.isPresent_iff_satisfies hx, Decisions.isPresent_iff_satisfies hx,
    Decisions.satisfies_override, Int.natAbs_neg]
  by_cases he : x = id
  · rw [if_pos (congrArg Int.natAbs he)]
    refine ⟨?_, ?_⟩
    · intro hs
      exact absurd (hs.mpr hx) (not_pos_neg hid)
    · exact fun hs => absurd he hs.2
  · have hne : x.natAbs ≠ id.natAbs := by
      intro habs
      exact he (Decisions.eq_of_natAbs_eq habs (iff_of_true hid hx))
    rw [if_neg hne]
    exact (and_iff_left he).symm

theorem isPresent_eraseOne_self (hid : 0 < id) :
    (s.eraseOne id).decisions.isPresent id = false :=
  Bool.eq_false_iff.mpr fun hp => ((isPresent_eraseOne hid hid).mp hp).2 rfl

theorem isPresent_eraseOne_of_ne (hid : 0 < id) (hx : 0 < x) (hne : x ≠ id) :
    (s.eraseOne id).decisions.isPresent x = s.decisions.isPresent x :=
  Bool.eq_iff_iff.mpr ((isPresent_eraseOne hid hx).trans (and_iff_left hne))

theorem reason?_eraseOne (hid : 0 < id) (hx : 0 < x) :
    (s.eraseOne id).decisions.reason? x =
      if x = id then some .cleanDeps else s.decisions.reason? x := by
  unfold eraseOne
  rw [Decisions.reason?_override, Int.natAbs_neg]
  by_cases he : x = id
  · rw [if_pos he, if_pos (congrArg Int.natAbs he)]
  · rw [if_neg he, if_neg]
    intro habs
    exact he (Decisions.eq_of_natAbs_eq habs (iff_of_true hid hx))

theorem coherent_eraseOne (h : s.decisions.Coherent) (hid : 0 < id) :
    (s.eraseOne id).decisions.Coherent :=
  h.override _ (Int.neg_ne_zero.mpr (Int.ne_of_gt hid))

/-- What is looked at before a package is erased. -/
theorem isLeftBehind_iff : s.isLeftBehind erased id = true ↔
    s.world.isInstalled id = true ∧ s.context.userInstalled.contains id = false ∧
      s.isDecidedByRequest id = false ∧ s.isRequiredByAny id erased.toList = true ∧
        s.isNeededByAny id s.decisions.present = false := by
  unfold isLeftBehind
  simp only [Bool.and_eq_true, Bool.not_eq_true', and_assoc]

/-- Whether a package provides a requirement of some other. -/
def Requires (u : Universe) (other id : PackageId) : Prop :=
  ∃ p, u.package? other = some p ∧ ∃ r ∈ p.requires, id ∈ u.whatProvides r

theorem isRequiredByAny_iff {packages : List PackageId} :
    s.isRequiredByAny id packages = true ↔ ∃ other ∈ packages, Requires s.world other id := by
  unfold isRequiredByAny Requires
  simp only [List.any_eq_true, List.mem_filterMap, List.contains_iff_mem]
  refine ⟨?_, ?_⟩
  · intro h
    obtain ⟨p, ⟨other, hother, hp⟩, hreq⟩ := h
    exact ⟨other, hother, p, hp, hreq⟩
  · intro h
    obtain ⟨other, hother, p, hp, hreq⟩ := h
    exact ⟨p, ⟨other, hother, hp⟩, hreq⟩

/-- A package that nothing needs is not the only one to meet a requirement. -/
theorem exists_other_of_isNeededByAny {packages : List PackageId}
    (h : s.isNeededByAny id packages = false) {other : PackageId} (hother : other ∈ packages)
    (hne : other ≠ id) {p : Package} (hp : s.world.package? other = some p) {r : Relation}
    (hr : r ∈ p.requires) (hid : id ∈ s.world.whatProvides r) :
    ∃ q ∈ s.world.whatProvides r, q ≠ id ∧ q ≠ other ∧ s.decisions.isPresent q = true := by
  unfold isNeededByAny at h
  have hnot := List.any_eq_false.mp h other hother
  rw [hp, Option.any_some, bne_iff_ne.mpr hne, Bool.true_and] at hnot
  unfold isNeededBy at hnot
  have hnone := List.any_eq_false.mp (Bool.eq_false_iff.mpr hnot) r hr
  dsimp only at hnone
  rw [List.contains_iff_mem.mpr hid, Bool.true_and, Bool.not_eq_true', Bool.not_eq_false] at hnone
  obtain ⟨q, hq, hcond⟩ := List.any_eq_true.mp hnone
  rw [Bool.and_eq_true, Bool.and_eq_true, bne_iff_ne, bne_iff_ne] at hcond
  exact ⟨q, hq, hcond.1.1, hcond.1.2, hcond.2⟩

/-! ## Any number of steps -/

/-- Erasing packages that are left behind, one after the other. -/
inductive Cleans : PackageSet → Solution → Solution → Prop where
  | done (erased : PackageSet) (s : Solution) : Cleans erased s s
  | step {erased : PackageSet} {s t : Solution} {id : PackageId} : id ∈ s.decisions.present →
      s.isLeftBehind erased id = true → Cleans (erased.insert id) (s.eraseOne id) t →
        Cleans erased s t

theorem cleans_eraseLeftBehind : ∀ (left : Nat) (erased : PackageSet) (s : Solution),
    Cleans erased s (eraseLeftBehind left erased s) := by
  intro left
  induction left with
  | zero => exact Cleans.done
  | succ left ih =>
    intro erased s
    unfold eraseLeftBehind
    cases hfind : s.decisions.present.find? (s.isLeftBehind erased) with
    | none => exact Cleans.done erased s
    | some id =>
        exact (ih _ _).step (List.mem_of_find?_eq_some hfind) (List.find?_some hfind)

theorem cleans_cleanUp (s : Solution) : Cleans s.context.cleandeps s s.cleanUp := by
  unfold cleanUp
  split
  · exact .done _ s
  · exact cleans_eraseLeftBehind ..

/-- Only the decisions change. -/
theorem Cleans.eq_withDecisions (h : Cleans erased s t) :
    t = { s with decisions := t.decisions } := by
  induction h with
  | done => rfl
  | step _ _ _ ih => exact ih

theorem Cleans.problems (h : Cleans erased s t) : t.problems = s.problems := by
  rw [h.eq_withDecisions]

theorem Cleans.rules (h : Cleans erased s t) : t.rules = s.rules := by rw [h.eq_withDecisions]

theorem Cleans.coherent (h : Cleans erased s t) (hs : s.decisions.Coherent) :
    t.decisions.Coherent := by
  induction h with
  | done => exact hs
  | step hid _ _ ih => exact ih (coherent_eraseOne hs (hs.mem_present.mp hid).1)

/-- **A package that was erased as left behind**, and where it stood before. -/
structure Erased (erased : PackageSet) (s t : Solution) (id : PackageId) : Prop where
  absent : t.decisions.isPresent id = false
  reason : t.decisions.reason? id = some .cleanDeps
  present : s.decisions.isPresent id = true
  installed : s.world.isInstalled id = true
  unwanted : s.context.userInstalled.contains id = false
  undecided : s.isDecidedByRequest id = false
  /-- It was required by a package erased before it. -/
  required : ∃ other, Requires s.world other id ∧
    (erased.contains other = true ∨ t.decisions.reason? other = some .cleanDeps)

/-- What is absent stays so, for the same reason. -/
theorem Cleans.same_of_absent (h : Cleans erased s t) (hs : s.decisions.Coherent) (hx : 0 < x)
    (habsent : s.decisions.isPresent x = false) :
    t.decisions.isPresent x = false ∧ t.decisions.reason? x = s.decisions.reason? x := by
  induction h with
  | done => exact ⟨habsent, rfl⟩
  | @step erased s t id hmem _ _ ih =>
    obtain ⟨hid, hpresent⟩ := hs.mem_present.mp hmem
    have hne : x ≠ id := by
      intro he
      rw [he, hpresent] at habsent
      exact absurd habsent (by simp)
    rw [← isPresent_eraseOne_of_ne hid hx hne] at habsent
    obtain ⟨hout, hreason⟩ := ih (coherent_eraseOne hs hid) habsent
    rw [reason?_eraseOne hid hx, if_neg hne] at hreason
    exact ⟨hout, hreason⟩

/-- What was erased after the first step was erased. -/
theorem Erased.of_eraseOne (h : Erased (erased.insert id) (s.eraseOne id) t x) (hid : 0 < id)
    (hx : 0 < x) (hne : x ≠ id) (hfirst : t.decisions.reason? id = some .cleanDeps) :
    Erased erased s t x where
  absent := h.absent
  reason := h.reason
  present := by
    rw [← isPresent_eraseOne_of_ne hid hx hne]
    exact h.present
  installed := h.installed
  unwanted := h.unwanted
  undecided := by
    have hundecided := h.undecided
    unfold isDecidedByRequest rule? at hundecided ⊢
    rw [reason?_eraseOne hid hx, if_neg hne] at hundecided
    exact hundecided
  required := by
    obtain ⟨other, hrel, hgone⟩ := h.required
    refine ⟨other, hrel, ?_⟩
    rcases hgone with hgone | hgone
    · rcases PackageSet.contains_insert.mp hgone with hgone | ⟨-, hother⟩
      · exact .inl hgone
      · exact .inr (hother ▸ hfirst)
    · exact .inr hgone

/-- **Every package is decided as before**, for the same reason, or was erased. -/
theorem Cleans.same_or_erased (h : Cleans erased s t) (hs : s.decisions.Coherent) :
    ∀ x, 0 < x →
      (t.decisions.isPresent x = s.decisions.isPresent x ∧
        t.decisions.reason? x = s.decisions.reason? x) ∨ Erased erased s t x := by
  induction h with
  | done => exact fun x _ => .inl ⟨rfl, rfl⟩
  | @step erased s t id hmem hleft hrest ih =>
    intro x hx
    obtain ⟨hid, hpresent⟩ := hs.mem_present.mp hmem
    obtain ⟨hinst, huser, hreq, hrequired, -⟩ := isLeftBehind_iff.mp hleft
    have hs' := coherent_eraseOne hs hid
    -- what this step erased is left alone by the later ones
    obtain ⟨hout, hreason⟩ := hrest.same_of_absent hs' hid (isPresent_eraseOne_self hid)
    rw [reason?_eraseOne hid hid, if_pos rfl] at hreason
    by_cases he : x = id
    · subst he
      obtain ⟨other, hother, hrel⟩ := isRequiredByAny_iff.mp hrequired
      refine .inr ⟨hout, hreason, hpresent, hinst, huser, hreq, other, hrel, .inl ?_⟩
      exact PackageSet.mem_toList.mp hother
    · rcases ih hs' x hx with ⟨hsame, hsamereason⟩ | herased
      · rw [isPresent_eraseOne_of_ne hid hx he] at hsame
        rw [reason?_eraseOne hid hx, if_neg he] at hsamereason
        exact .inl ⟨hsame, hsamereason⟩
      · exact .inr (herased.of_eraseOne hid hx he hreason)

/-- If nothing is erased, nothing is left behind. -/
theorem Cleans.eq_of_spared (h : Cleans erased s t) (hnone : ∀ x, erased.contains x = false) :
    t = s := by
  cases h with
  | done => rfl
  | step _ hleft _ =>
    obtain ⟨-, -, -, hrequired, -⟩ := isLeftBehind_iff.mp hleft
    obtain ⟨other, hother, -⟩ := isRequiredByAny_iff.mp hrequired
    rw [PackageSet.mem_toList, hnone other] at hother
    exact absurd hother (by simp)

/-- What is present in the end was present before. -/
theorem Cleans.isPresent (h : Cleans erased s t) (hs : s.decisions.Coherent) {x : PackageId}
    (hx : 0 < x) (hpresent : t.decisions.isPresent x = true) :
    s.decisions.isPresent x = true := by
  rcases h.same_or_erased hs x hx with hsame | herased
  · rw [← hsame.1]
    exact hpresent
  · exact herased.present

theorem Cleans.mem_present (h : Cleans erased s t) (hs : s.decisions.Coherent) {x : PackageId}
    (hx : x ∈ t.decisions.present) : x ∈ s.decisions.present := by
  obtain ⟨hpos, hpresent⟩ := (h.coherent hs).mem_present.mp hx
  exact hs.mem_present.mpr ⟨hpos, h.isPresent hs hpos hpresent⟩

/-- **Requirements of what stays are still met.** -/
theorem Cleans.requirement_met (h : Cleans erased s t) (hs : s.decisions.Coherent)
    {x : PackageId} (hx : x ∈ t.decisions.present) {p : Package}
    (hp : s.world.package? x = some p) {r : Relation} (hr : r ∈ p.requires)
    (hmet : ∃ q ∈ s.world.whatProvides r, q ≠ x ∧ s.decisions.isPresent q = true) :
    ∃ q ∈ s.world.whatProvides r, q ≠ x ∧ t.decisions.isPresent q = true := by
  induction h with
  | done => exact hmet
  | @step erased s t id hmem hleft hrest ih =>
    obtain ⟨hid, -⟩ := hs.mem_present.mp hmem
    have hs' := coherent_eraseOne hs hid
    obtain ⟨-, -, -, -, hneeded⟩ := isLeftBehind_iff.mp hleft
    obtain ⟨hxpos, hxpresent⟩ := hs'.mem_present.mp (hrest.mem_present hs' hx)
    obtain ⟨hxbefore, hxid⟩ := (isPresent_eraseOne hid hxpos).mp hxpresent
    refine ih hs' hx hp ?_
    obtain ⟨q, hq, hqx, hqpresent⟩ := hmet
    have hpos : ∀ y ∈ s.world.whatProvides r, 0 < y := fun y hy =>
      Universe.pos_of_isConsidered (Universe.isConsidered_of_mem_whatProvides hy)
    by_cases hqid : q = id
    · -- the erased package met it, but it was not needed for that
      subst hqid
      obtain ⟨q', hq', hne, hne', hpresent'⟩ := exists_other_of_isNeededByAny hneeded
        (hs.mem_present.mpr ⟨hxpos, hxbefore⟩) hxid hp hr hq
      exact ⟨q', hq', hne', (isPresent_eraseOne hid (hpos q' hq')).mpr ⟨hpresent', hne⟩⟩
    · exact ⟨q, hq, hqx, (isPresent_eraseOne hid (hpos q hq)).mpr ⟨hqpresent, hqid⟩⟩

end Solution

end DepSolver
