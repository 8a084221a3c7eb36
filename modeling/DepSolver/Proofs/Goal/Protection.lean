import DepSolver.Goal.Run
import DepSolver.Proofs.Solution.NoChange
import DepSolver.Proofs.Transaction.Steps

/-!
# Protected packages

A run refuses a transaction that removes a protected package, unless a package of the same name
takes its place. It tells removals by what steps are called in a mode that shows only the side that
goes out and tells obsoleting from replacing. In this mode the steps called an erasure or an
obsoletion are exactly those of packages that go out without one of their name in their place.

That holds however the solution came to lack the package: an erasure, cleaning up, an obsoleting
package and the limit of install-only packages all end in the same steps.
-/

namespace DepSolver

variable {world : Universe} {flags : SolverFlags} {job : Job} {id : PackageId}

/-! ## Steps that remove -/

theorem StepKind.type_obsoletesMode (kind : StepKind) :
    kind.type Goal.obsoletesMode ∈ [StepType.erase, .obsoleted] ↔
      kind = .erase ∨ kind = .obsoleted := by
  cases kind with
  | replace how => cases how <;> decide
  | replaced how => cases how <;> decide
  | _ => decide

/-- What goes out is called neither if one of its name takes its place. -/
theorem kind_replacedStep {x : PackageId} {p : Package} {o : Transaction.Outgoing}
    (h : ∃ y, o.replacement = some (y, false)) :
    (Transaction.replacedStep x p o).kind = .replaced (.between p o.package) := by
  obtain ⟨y, hy⟩ := h
  unfold Transaction.replacedStep
  rw [hy]
  rfl

/-- **The packages that a transaction removes**: those that go out and are not replaced by one of
their name. -/
theorem mem_removals {u : Universe} {kept multiversion : PackageSet} :
    id ∈ (Transaction.ofKept u kept multiversion).ofTypes Goal.obsoletesMode [.erase, .obsoleted] ↔
      u.isInstalled id = true ∧ kept.contains id = false ∧
        ¬(Transaction.ofKept u kept multiversion).ReplacesByName u id := by
  rw [Transaction.mem_ofTypes]
  refine ⟨?_, ?_⟩
  · intro h
    obtain ⟨step, hstep, rfl, htype⟩ := h
    have hkind := (StepKind.type_obsoletesMode step.kind).mp htype
    cases Transaction.mem_steps_iff.mp hstep with
    | @incoming x p hin =>
        have hincoming := Transaction.isIncoming_incomingKind (multiversion.contains x) p
          (Transaction.replacedBy u kept multiversion x)
        -- neither kind is that of a package that comes in
        dsimp only at hkind
        generalize Transaction.incomingKind _ _ _ = kind at hkind hincoming
        rcases hkind with rfl | rfl <;> exact absurd hincoming (by decide)
    | @replaced o x p obsoleting hout hin hreplacement =>
        obtain ⟨hinstalled, hunkept, -, -⟩ := Transaction.mem_outgoingOf.mp hout
        refine ⟨hinstalled, hunkept, fun hpaired => ?_⟩
        rw [kind_replacedStep ((Transaction.replacesByName_iff hout).mp hpaired)] at hkind
        rcases hkind with herase | hobsoleted
        · exact StepKind.noConfusion herase
        · exact StepKind.noConfusion hobsoleted
    | @erased o hout hnone =>
        obtain ⟨hinstalled, hunkept, -, -⟩ := Transaction.mem_outgoingOf.mp hout
        refine ⟨hinstalled, hunkept, fun hpaired => ?_⟩
        obtain ⟨y, hy⟩ := (Transaction.replacesByName_iff hout).mp hpaired
        rw [hnone] at hy
        exact absurd hy (by simp)
  · intro h
    obtain ⟨hinstalled, hunkept, hunpaired⟩ := h
    have hout : ∃ o ∈ Transaction.outgoingOf u kept multiversion, o.id = id :=
      Transaction.exists_outgoing_of_unkept hinstalled hunkept
    obtain ⟨o, hout, rfl⟩ := hout
    rw [Transaction.replacesByName_iff hout] at hunpaired
    cases hreplacement : o.replacement with
    | none =>
        refine ⟨_, Transaction.mem_steps_iff.mpr (.erased hout hreplacement), rfl, ?_⟩
        exact (StepKind.type_obsoletesMode _).mpr (.inl rfl)
    | some r =>
        obtain ⟨x, obsoleting⟩ := r
        obtain ⟨q, hin, -⟩ := (Transaction.mem_outgoingOf.mp hout).name_eq_iff hreplacement
        cases obsoleting with
        | false => exact absurd ⟨x, hreplacement⟩ hunpaired
        | true =>
            refine ⟨_, Transaction.mem_steps_iff.mpr (.replaced hout hin hreplacement), rfl, ?_⟩
            refine (StepKind.type_obsoletesMode _).mpr (.inr ?_)
            unfold Transaction.replacedStep
            rw [hreplacement]
            rfl

/-! ## What a solution keeps of the installed packages -/

/-- What was decided about a package stays decided while packages are erased as left behind. -/
theorem Solution.Cleans.isDecided {erased : PackageSet} {s t : Solution} (h : Cleans erased s t)
    (hs : s.decisions.isDecided id = true) : t.decisions.isDecided id = true := by
  induction h with
  | done => exact hs
  | @step erased s t x _ _ _ ih =>
    refine ih ?_
    unfold Decisions.isDecided at hs ⊢
    unfold Solution.eraseOne
    rw [bne_iff_ne] at hs ⊢
    rw [Decisions.signedLevel_override]
    split
    · intro hzero
      have habs := congrArg Int.natAbs hzero
      rw [Decisions.natAbs_signed] at habs
      exact absurd habs (by simp)
    · exact hs

theorem world_solve (world : Universe) (flags : SolverFlags) (job : Job) :
    (solve world flags job).world = world := by
  rw [solve_eq]
  split
  · rw [(Solution.cleans_cleanUp _).eq_withDecisions]
    rfl
  · rfl

/-- **An installed package is kept exactly if it is present in the end.** -/
theorem kept_iff_of_isInstalled (h : (solve world flags job).isSolved = true)
    (hid : world.isInstalled id = true) :
    (solve world flags job).kept.contains id = true ↔
      id ∈ (solve world flags job).decisions.present := by
  have hdecided : (solve world flags job).decisions.isDecided id = true :=
    (cleans_solve h).isDecided
      ((solves_of_isSolved h).2.installed id (Universe.mem_installedIds.mpr hid))
  rw [Solution.kept_contains_iff, Decisions.isUndecided, hdecided]
  refine ⟨fun hkept => ?_, fun hin => .inl ⟨Universe.pos_of_isInstalled hid, hin⟩⟩
  rcases hkept with hin | hundecided
  · exact hin.2
  · exact absurd hundecided.2 (by simp)

/-! ## Runs -/

namespace Goal

theorem run_eq (g : Goal) (flags : GoalActions) : g.run flags =
    (g.ready flags).conclude (g.resolved flags).1 (g.resolved flags).2 := rfl

@[simp] theorem world_ready (g : Goal) (flags : GoalActions) : (g.ready flags).world = g.world := by
  unfold ready protectKernel
  split <;> rfl

theorem actions_ready (g : Goal) (flags : GoalActions) :
    (g.ready flags).actions = g.actions ||| (flags ||| g.defaultActions) := by
  unfold ready protectKernel
  split <;> rfl

@[simp] theorem staged_ready (g : Goal) (flags : GoalActions) :
    (g.ready flags).staged = g.staged := by
  unfold ready protectKernel
  split <;> rfl

/-- **What a run protects**: what the goal protects, and the running kernel. -/
theorem protectedSet_ready {g : Goal} {flags : GoalActions} (hid : 0 < id) :
    (g.ready flags).protectedSet.contains id = true ↔
      g.protectedSet.contains id = true ∨ g.world.runningKernel? = some id := by
  unfold ready protectKernel
  split
  · rename_i kernel hkernel
    have hkernel : g.world.runningKernel? = some kernel := hkernel
    show (g.protectedSet.insert kernel).contains id = true ↔ _
    rw [PackageSet.contains_insert, hkernel, Option.some_inj]
    refine or_congr_right ⟨fun h => h.2.symm, fun h => ?_⟩
    rw [h]
    exact ⟨hid, rfl⟩
  · rename_i hkernel
    have hkernel : g.world.runningKernel? = none := hkernel
    rw [hkernel]
    exact (or_iff_left (by simp)).symm

/-- **What a run solves last**: the job, or the job with what limits it. -/
theorem fst_resolve (g : Goal) (sf : SolverFlags) (job : Job) : (g.resolve sf job).1 =
    if (g.limiting sf job).isEmpty then solve g.world sf job
    else solve g.world sf (g.limitedJob sf job) := by
  unfold resolve
  dsimp only
  cases (g.limiting sf job).isEmpty <;> rfl

theorem exists_resolved_eq (g : Goal) (flags : GoalActions) :
    ∃ sf job, (g.resolved flags).1 = solve g.world sf job := by
  unfold resolved
  rw [fst_resolve, world_ready]
  split
  · exact ⟨_, _, rfl⟩
  · exact ⟨_, _, rfl⟩

/-- The protected packages that a transaction removes. -/
theorem contains_protectedRemovals {g : Goal} {t : Transaction} :
    (g.protectedRemovals t).contains id = true ↔
      (0 < id ∧ id ∈ t.ofTypes obsoletesMode [.erase, .obsoleted]) ∧
        g.protectedSet.contains id = true := by
  unfold protectedRemovals
  rw [PackageSet.contains_inter, PackageSet.contains_ofList]

theorem isEmpty_protectedRemovals {g : Goal} {t : Transaction} :
    (g.protectedRemovals t).isEmpty = true ↔ ∀ id, (g.protectedRemovals t).contains id = false := by
  refine PackageSet.isEmpty_iff ?_
  unfold protectedRemovals
  rw [PackageSet.bit_eq, PackageSet.word_inter, UInt64.toNat_and, Nat.testBit_and,
    ← PackageSet.bit_eq, PackageSet.bit_zero_ofList, Bool.false_and]

/-- What is left of a run that came to a solution. -/
theorem conclude_of_isSolved (g : Goal) {s : Solution} (h : s.isSolved = true)
    (events : List GoalEvent) :
    (g.conclude s events).goal.removedProtected = g.protectedRemovals s.transaction ∧
      (g.conclude s events).goal.transaction? = some s.transaction ∧
      (g.conclude s events).outcome =
        if (g.protectedRemovals s.transaction).isEmpty then .ok ()
        else .error .removalOfProtectedPackage := by
  have hsame : ({ g with solution? := some s } : Goal).protectedRemovals s.transaction =
    g.protectedRemovals s.transaction := rfl
  unfold conclude
  dsimp only
  rw [if_pos h, hsame]
  cases (g.protectedRemovals s.transaction).isEmpty <;> exact ⟨rfl, rfl, rfl⟩

/-- What is left of a run that came to none: its transaction is the one it began with. -/
theorem conclude_of_isSolved_eq_false (g : Goal) {s : Solution} (h : s.isSolved = false)
    (events : List GoalEvent) :
    (g.conclude s events).goal.transaction? = g.transaction? ∧
      (g.conclude s events).outcome = .error .noSolutionPossible := by
  unfold conclude
  dsimp only
  rw [h, if_neg Bool.false_ne_true]
  exact ⟨rfl, rfl⟩

theorem solution?_conclude (g : Goal) (s : Solution) (events : List GoalEvent) :
    (g.conclude s events).goal.solution? = some s := by
  unfold conclude
  dsimp only
  split
  · split <;> rfl
  · rfl

/--
**Protected packages survive every successful run.**

If the last solve of a run succeeds, the run remembers exactly the protected packages, the running
kernel among them, that were installed, are absent in the end, and have not left their place to a
package of their name that comes in. It succeeds if there are none, and else is refused; the
transaction is kept in both cases.
-/
theorem removedProtected_run (g : Goal) (flags : GoalActions) (s : Solution)
    (hlast : (g.run flags).goal.solution? = some s) (hsolved : s.isSolved = true) :
    (∀ id, (g.run flags).goal.removedProtected.contains id = true ↔
      (g.protectedSet.contains id = true ∨ g.world.runningKernel? = some id) ∧
        g.world.isInstalled id = true ∧ id ∉ s.decisions.present ∧
        ¬s.transaction.ReplacesByName g.world id) ∧
    ((∀ id, (g.run flags).goal.removedProtected.contains id = false) →
      (g.run flags).outcome = .ok ()) ∧
    ((∃ id, (g.run flags).goal.removedProtected.contains id = true) →
      (g.run flags).outcome = .error .removalOfProtectedPackage) ∧
    (g.run flags).goal.transaction? = some s.transaction := by
  obtain ⟨sf, job, hsolve⟩ := g.exists_resolved_eq flags
  rw [run_eq, solution?_conclude] at hlast
  have hs : (g.resolved flags).1 = s := Option.some.inj hlast
  obtain ⟨hremoved, htransaction, houtcome⟩ :=
    (g.ready flags).conclude_of_isSolved hsolved (g.resolved flags).2
  rw [run_eq, hs, hremoved, htransaction, houtcome]
  rw [hs] at hsolve
  have hworld : s.world = g.world := by rw [hsolve, world_solve]
  refine ⟨fun id => ?_, fun hnone => ?_, fun hsome => ?_, rfl⟩
  · have hremovals : id ∈ s.transaction.ofTypes obsoletesMode
        [.erase, .obsoleted] ↔ g.world.isInstalled id = true ∧
          id ∉ s.decisions.present ∧
          ¬s.transaction.ReplacesByName g.world id := by
      unfold Solution.transaction
      rw [mem_removals, hworld]
      refine and_congr_right fun hinstalled => and_congr_left fun _ => ?_
      rw [← Bool.not_eq_true]
      rw [hsolve] at hsolved ⊢
      exact not_congr (kept_iff_of_isInstalled hsolved hinstalled)
    rw [contains_protectedRemovals, hremovals]
    refine ⟨fun h => ?_, fun h => ?_⟩
    · exact ⟨(protectedSet_ready h.1.1).mp h.2, h.1.2⟩
    · have hpos := Universe.pos_of_isInstalled h.2.1
      exact ⟨⟨hpos, h.2⟩, (protectedSet_ready hpos).mpr h.1⟩
  · rw [if_pos (isEmpty_protectedRemovals.mpr hnone)]
  · obtain ⟨id, hid⟩ := hsome
    rw [if_neg]
    intro hempty
    rw [isEmpty_protectedRemovals.mp hempty id] at hid
    exact absurd hid (by simp)

/-- A goal that updates two protected packages: one has a newer version, the other is obsoleted. -/
def guarded : Goal where
  world :=
    .ofCatalog <| .ofSystem
      [plainPackage "shell" "1" 0,
       plainPackage "editor" "1" 0]
      [plainPackage "shell" "2" 1,
       { plainPackage "pager" "1" 1 with obsoletes := [Relation.ofName "editor"] }]
  staged := [{ action := .update, target := .all }]
  protectedSet := .ofList [1, 2]

/-- The one that is obsoleted stands in the way. -/
theorem removedProtected_guarded :
    ∃ s, (guarded.run {}).goal.solution? = some s ∧ s.isSolved = true ∧
      (guarded.run {}).outcome = .error .removalOfProtectedPackage ∧
      (guarded.run {}).goal.transaction? = some s.transaction ∧
      (2 ∉ s.decisions.present ∧ ¬s.transaction.ReplacesByName guarded.world 2) ∧
      (1 ∉ s.decisions.present ∧ s.transaction.ReplacesByName guarded.world 1) := by
  have hlast : (guarded.run {}).goal.solution? = some (guarded.resolved {}).1 := by
    rw [run_eq, solution?_conclude]
  have hsolved : (guarded.resolved {}).1.isSolved = true := by decide +kernel
  have hremoved : (guarded.run {}).goal.removedProtected.contains 2 = true := by decide +kernel
  have hspared : (guarded.run {}).goal.removedProtected.contains 1 = false := by decide +kernel
  have hpresent : (guarded.resolved {}).1.decisions.present = [3, 4] := by decide +kernel
  have h := removedProtected_run guarded {} _ hlast hsolved
  have hshell : 1 ∉ (guarded.resolved {}).1.decisions.present := by
    rw [hpresent]
    decide
  refine ⟨_, hlast, hsolved, h.2.2.1 ⟨2, hremoved⟩, h.2.2.2, ((h.1 2).mp hremoved).2.2, hshell, ?_⟩
  -- it is protected and gone too, so it must have left its place to its newer version
  refine Classical.byContradiction fun hnot => ?_
  rw [(h.1 1).mpr ⟨.inl (by decide +kernel), by decide +kernel, hshell, hnot⟩] at hspared
  exact absurd hspared (by simp)

end Goal

end DepSolver
