import DepSolver.Proofs.Solution.Unneeded

/-!
# Nothing comes in uncalled for

A package that was not installed is in the final set for a reason that can be seen there: a rule of
the job or of an installed package offers it, or another package of the final set requires or
recommends it.

The search sees to that, since it decides nothing without a reason and a reason stays where it is
when the search goes back. Cleaning up can spoil it. It erases installed packages only, and asks
what still needs them, but not what they had pulled in themselves; so a package that came in for one
of them stays. That is the only way: behind a package for which nothing in the final set speaks stands
an installed one that was taken and required it.
-/

namespace DepSolver

/-- Whether a package recommends what another provides. -/
def Solution.Recommends (u : Universe) (other id : PackageId) : Prop :=
  ∃ p, u.package? other = some p ∧ ∃ r ∈ p.recommends, id ∈ u.whatProvides r

/-- **What speaks for a package** in the end. -/
inductive CalledFor (world : Universe) (flags : SolverFlags) (job : Job) (id : PackageId) :
    Prop where
  /-- A rule of the job, or of an installed package, offers it. -/
  | offered {r : Rule} (hr : r ∈ (solve world flags job).rules.toList)
      (hclass : r.toClass ≠ .package) (hid : id ∈ r.literals)
  /-- Another package requires it. -/
  | required {src : PackageId} (hsrc : src ∈ (solve world flags job).decisions.present)
      (hne : src ≠ id) (h : Solution.Requires world src id)
  /-- Another package recommends it, and recommendations are followed. -/
  | recommended {src : PackageId} (hfollows : flags.ignoreRecommended = false)
      (hsrc : src ∈ (solve world flags job).decisions.present) (hne : src ≠ id)
      (h : Solution.Recommends world src id)

section

variable {world : Universe} {flags : SolverFlags} {job : Job} {id : PackageId}
  (h : (solve world flags job).isSolved = true)
include h

/-- A package in the final set is backed by other packages that the search decided on. -/
theorem exists_backed_of_mem_solve (hid : id ∈ (solve world flags job).decisions.present) :
    ∃ (before : Literal → Prop) (reason : Reason),
      ((Setting.ofJob world flags job).search (uncleaned world flags job).rules).Backed
        before id reason ∧
      ∀ src, 0 < src → before src →
        src ≠ id ∧ src ∈ (uncleaned world flags job).decisions.present := by
  have hcoherent := coherent_uncleaned h
  have hin := mem_uncleaned_present h hid
  obtain ⟨reason, hmem⟩ := hcoherent.mem_queue_of_mem_present hin
  obtain ⟨before, after, hsplit⟩ := List.append_of_mem hmem
  refine ⟨_, reason, grounded_uncleaned h before _ after hsplit (hcoherent.mem_present.mp hin).1,
    fun src hpos hbefore => ⟨?_, ?_⟩⟩
  · -- nothing is decided twice
    rintro rfl
    obtain ⟨why, hwhy⟩ := hbefore
    have hnodup := hcoherent.nodup
    rw [hsplit, List.map_append, List.map_cons] at hnodup
    exact (List.nodup_append.mp hnodup).2.2 _ (List.mem_map_of_mem hwhy) _
      (List.mem_cons_self ..) rfl
  · obtain ⟨why, hwhy⟩ := hbefore
    have hqueue : (src, why) ∈ (uncleaned world flags job).decisions.queue.toList := by
      rw [hsplit]
      exact List.mem_append_left _ hwhy
    exact hcoherent.mem_present_of_mem hpos hqueue

/-- Of what came in, something speaks for it in the end, or required it when the search ended. -/
theorem calledFor_or_required (hid : id ∈ (solve world flags job).decisions.present)
    (hnew : world.isInstalled id = false) :
    CalledFor world flags job id ∨ ∃ src ∈ (uncleaned world flags job).decisions.present,
      src ≠ id ∧ Solution.Requires world src id := by
  have hpos := (((cleans_solve h).coherent (coherent_uncleaned h)).mem_present.mp hid).1
  obtain ⟨before, reason, hbacked, hbefore⟩ := exists_backed_of_mem_solve h hid
  cases hbacked with
  | @rule _ r hr hlit _ hneg =>
      have hrule : r ∈ (solve world flags job).rules.toList := by
        rw [(cleans_solve h).rules]
        exact (RuleSet.mem_enabled_iff.mp hr).1
      cases brings_of_mem_enabled h hpos hnew hr hlit with
      | asked hclass =>
          refine .inl (.offered hrule (fun hpackage => ?_) hlit)
          rw [hpackage] at hclass
          exact hclass.elim RuleClass.noConfusion RuleClass.noConfusion
      | renewing hclass _ =>
          refine .inl (.offered hrule (fun hpackage => ?_) hlit)
          rw [hpackage] at hclass
          exact hclass.elim RuleClass.noConfusion RuleClass.noConfusion
      | @serving src hsrcpos hsrc hrequires =>
          have hfirst := hneg _ hsrc (Int.neg_neg_of_pos hsrcpos)
          rw [Int.neg_neg] at hfirst
          obtain ⟨hne, hin⟩ := hbefore src hsrcpos hfirst
          exact .inr ⟨src, hin, hne, hrequires⟩
  | @recommended src p r hfollows hfirst hsrc hp hr hprovides =>
      obtain ⟨hne, hin⟩ := hbefore src (Catalog.pos_of_package? hp) hfirst
      exact .inl (.recommended hfollows (mem_present_of_available h hin hsrc) hne
        ⟨p, hp, r, hr, hprovides⟩)
  | kept hinstalled =>
      have hinstalled : world.isInstalled id = true := hinstalled
      rw [hnew] at hinstalled
      exact absurd hinstalled.symm (by simp)

/-- Where nothing is cleaned up after, something speaks for it in the end. -/
theorem calledFor_of_not_cleansUp (hid : id ∈ (solve world flags job).decisions.present)
    (hnew : world.isInstalled id = false)
    (hnone : ∀ e ∈ job, e.action = .erase → e.flags.contains .cleandeps = false) :
    CalledFor world flags job id := by
  rcases calledFor_or_required h hid hnew with hcalled | ⟨src, hsrc, hne, hrequires⟩
  · exact hcalled
  · rw [← present_eq_of_not_cleansUp h hnone] at hsrc
    exact .required hsrc hne hrequires

end

/--
**Nothing comes in uncalled for.**

For every package of the final set that was not installed speaks a rule of the job or of an
installed package, or another package of the final set that requires or recommends it, or else an installed
package required it that cleaning up took. Without an erasure that cleans up, none is taken.
-/
theorem calledFor_or_takenAway (world : Universe) (flags : SolverFlags) (job : Job)
    (h : (solve world flags job).isSolved = true) (id : PackageId)
    (hid : id ∈ (solve world flags job).decisions.present)
    (hnew : world.isInstalled id = false) :
    (CalledFor world flags job id ∨
      ∃ src, TakenAway world flags job src ∧ Solution.Requires world src id) ∧
    ((∀ e ∈ job, e.action = .erase → e.flags.contains .cleandeps = false) →
      CalledFor world flags job id) := by
  refine ⟨?_, calledFor_of_not_cleansUp h hid hnew⟩
  rcases calledFor_or_required h hid hnew with hcalled | ⟨src, hsrc, hne, hrequires⟩
  · exact .inl hcalled
  · rcases mem_present_or_takenAway h hsrc with hin | htaken
    · exact .inl (.required hin hne hrequires)
    · exact .inr ⟨src, htaken, hrequires⟩

/-- An installed `app` requires `lib`, and `lib` what the installed `old` provides and the available
`new` as well. -/
def twoLevels : Universe :=
  .ofCatalog <| .ofSystem
    [{ plainPackage "app" "1" 0 with requires := [Relation.ofName "lib"] },
     { plainPackage "lib" "1" 0 with requires := [Relation.ofName "x"] },
     { plainPackage "old" "1" 0 with provides := [Relation.ofName "x"] }]
    [{ plainPackage "new" "1" 1 with provides := [Relation.ofName "x"] }]

/-- The job that erases `app` with what it pulled in, and `old`. -/
def twoErasures : Job :=
  [{ action := .erase, target := .ofName "app", flags := .cleandeps },
   { action := .erase, target := .ofName "old" }]

theorem isSolved_twoLevels : (solve twoLevels {} twoErasures).isSolved = true := by
  rw [isSolved_solve]
  decide +kernel

theorem present_twoLevels : (solve twoLevels {} twoErasures).decisions.present = [4] := by
  decide +kernel

/-- Nothing speaks for `new`, which is alone in the final set. -/
theorem not_calledFor_twoLevels : ¬CalledFor twoLevels {} twoErasures 4 := by
  have hrules : ∀ r ∈ (solve twoLevels {} twoErasures).rules.toList,
      r.toClass = .package ∨ 4 ∉ r.literals := by
    rw [(cleans_solve isSolved_twoLevels).rules]
    decide +kernel
  have halone : ∀ src ∈ (solve twoLevels {} twoErasures).decisions.present, src = 4 := by
    rw [present_twoLevels]
    exact fun src hsrc => List.mem_singleton.mp hsrc
  intro hcalled
  cases hcalled with
  | offered hr hclass hid => exact (hrules _ hr).elim hclass fun hnot => hnot hid
  | required hsrc hne => exact hne (halone _ hsrc)
  | recommended _ hsrc hne => exact hne (halone _ hsrc)

theorem mem_solve_twoLevels : 4 ∈ (solve twoLevels {} twoErasures).decisions.present := by
  rw [present_twoLevels]
  exact List.mem_singleton_self 4

/-- It stays all the same. -/
theorem uncalled_twoLevels : (solve twoLevels {} twoErasures).isSolved = true ∧
    4 ∈ (solve twoLevels {} twoErasures).decisions.present ∧ twoLevels.isInstalled 4 = false ∧
    ¬CalledFor twoLevels {} twoErasures 4 :=
  ⟨isSolved_twoLevels, mem_solve_twoLevels, by decide +kernel, not_calledFor_twoLevels⟩

/-- An installed package required it, `lib`, and cleaning up took that. -/
theorem calledFor_or_takenAway_twoLevels :
    (solve twoLevels {} twoErasures).isSolved = true ∧
    4 ∈ (solve twoLevels {} twoErasures).decisions.present ∧ twoLevels.isInstalled 4 = false ∧
    ∃ src, TakenAway twoLevels {} twoErasures src ∧ Solution.Requires twoLevels src 4 := by
  have hnew : twoLevels.isInstalled 4 = false := by decide +kernel
  have h := calledFor_or_takenAway twoLevels {} twoErasures isSolved_twoLevels 4
    mem_solve_twoLevels hnew
  exact ⟨isSolved_twoLevels, mem_solve_twoLevels, hnew, h.1.resolve_left not_calledFor_twoLevels⟩

end DepSolver
