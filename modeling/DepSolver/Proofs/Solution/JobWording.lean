import DepSolver.Proofs.Solution.ExcludedNumbers
import DepSolver.Proofs.Solution.JobOrder

/-!
# Jobs in other words

The packages an entry names may be written down in another way, and modifiers that have no name may
be lost. What a job comes to depends on neither: of a target it matters which packages it stands for
and how it is named to a user, and of the modifiers only those that have a name. `JobEntry.Restates`
says so of two entries, and a job whose entries are restated one by one is solved alike.
-/

namespace DepSolver

/-! ## Single bits -/

/-- A single bit is either there or not. -/
theorem and_eq_iff_of_bit {k : Nat} {f : UInt32} (hf : f.toNat = 2 ^ k) (a : UInt32) :
    a &&& f = f ↔ a.toNat.testBit k = true := by
  rw [← UInt32.toNat_inj, UInt32.toNat_and, hf, Nat.and_two_pow]
  cases a.toNat.testBit k
  · simpa using (Nat.two_pow_pos k).ne
  · simp

/-- A single bit is in a union exactly if it is in one of the words. -/
theorem or_and_beq_of_bit {f : UInt32} (hf : ∃ k < 32, f.toNat = 2 ^ k) (a b : UInt32) :
    ((a ||| b) &&& f == f) = (a &&& f == f || b &&& f == f) := by
  obtain ⟨k, -, hbit⟩ := hf
  rw [Bool.eq_iff_iff, Bool.or_eq_true, beq_iff_eq, beq_iff_eq, beq_iff_eq,
    and_eq_iff_of_bit hbit, and_eq_iff_of_bit hbit, and_eq_iff_of_bit hbit, UInt32.toNat_or,
    Nat.testBit_or, Bool.or_eq_true]

/-! ## Modifiers that have a name -/

namespace JobFlags

/-- The modifiers that have a name. -/
def known (a : JobFlags) : JobFlags :=
  (named.filter fun f => a.contains f.1).foldl (fun b f => b ||| f.1) empty

theorem bit_of_named : ∀ f ∈ named, ∃ k < 32, f.1.bits.toNat = 2 ^ k := by decide

/-- No modifier is part of another. -/
theorem eq_of_contains : ∀ f ∈ named, ∀ g ∈ named, g.1.contains f.1 = true → g = f := by decide

theorem contains_known {f : JobFlags × String} (hf : f ∈ named) (a : JobFlags) :
    a.known.contains f.1 = a.contains f.1 := by
  have hfold : ∀ (fs : List (JobFlags × String)) (b : JobFlags),
      (fs.foldl (fun b f => b ||| f.1) b).contains f.1 = true ↔
        b.contains f.1 = true ∨ ∃ g ∈ fs, g.1.contains f.1 = true := by
    intro fs
    induction fs with
    | nil => exact fun b => (or_iff_left (by simp)).symm
    | cons g fs ih =>
        intro b
        have hor : (b ||| g.1).contains f.1 = (b.contains f.1 || g.1.contains f.1) :=
          or_and_beq_of_bit (bit_of_named f hf) b.bits g.1.bits
        rw [List.foldl_cons, ih, hor, Bool.or_eq_true, or_assoc]
        simp only [List.mem_cons, exists_eq_or_imp]
  have hempty : ∀ f ∈ named, empty.contains f.1 = false := by decide
  have hself : ∀ f ∈ named, f.1.contains f.1 = true := by decide
  unfold known
  rw [Bool.eq_iff_iff, hfold, hempty f hf, or_iff_right Bool.false_ne_true]
  refine ⟨fun ⟨g, hg, hcontains⟩ => ?_, fun h => ⟨f, List.mem_filter.mpr ⟨hf, h⟩, hself f hf⟩⟩
  obtain ⟨hg, ha⟩ := List.mem_filter.mp hg
  rw [← eq_of_contains f hf g hg hcontains]
  exact ha

end JobFlags

/-! ## Entries in other words -/

/-- Whether a target says of a universe what another says. -/
structure JobTarget.Restates (u : Universe) (t' t : JobTarget) : Prop where
  resolve : t'.resolve u = t.resolve u
  describe : t'.describe u = t.describe u
  /-- Without candidates both are reported alike. -/
  missingKind : ∀ s : Setting, s.missingKind t' = s.missingKind t

/-- Whether an entry says of a universe what another says, with the modifiers that have a name. -/
structure JobEntry.Restates (u : Universe) (e' e : JobEntry) : Prop where
  action : e'.action = e.action
  target : e'.target.Restates u e.target
  flags : e'.flags = e.flags.known

namespace JobEntry.Restates

variable {u : Universe} {e e' : JobEntry}

theorem contains (h : e'.Restates u e) {f : JobFlags × String} (hf : f ∈ JobFlags.named) :
    e'.flags.contains f.1 = e.flags.contains f.1 := by
  rw [h.flags]
  exact JobFlags.contains_known hf _

theorem isWeak (h : e'.Restates u e) : e'.isWeak = e.isWeak :=
  h.contains (f := (.weak, "weak")) (by decide)

theorem mark (h : e'.Restates u e) (c : JobContext) : c.mark u e' = c.mark u e := by
  have hcleandeps : e'.flags.contains .cleandeps = e.flags.contains .cleandeps :=
    h.contains (f := (.cleandeps, "cleandeps")) (by decide)
  unfold JobContext.mark
  rw [h.action, h.target.resolve, hcleandeps]

theorem entryRules {s : Setting} (h : e'.Restates s.world e) : s.entryRules e' = s.entryRules e := by
  have hforcebest : e'.flags.contains .forcebest = e.flags.contains .forcebest :=
    h.contains (f := (.forcebest, "forcebest")) (by decide)
  have hinstall : s.installRules e' = s.installRules e := by
    unfold Setting.installRules
    rw [h.target.resolve, h.target.describe, h.target.missingKind, hforcebest]
  have herase : s.eraseRules e' = s.eraseRules e := by
    unfold Setting.eraseRules
    rw [h.target.resolve]
  unfold Setting.entryRules
  rw [h.action, hinstall, herase]

end JobEntry.Restates

/-! ## Jobs in other words -/

section Restated

variable {u : Universe} {job : Job} {f : JobEntry → JobEntry}

theorem JobContext.ofJob_restated (h : ∀ e ∈ job, (f e).Restates u e) :
    JobContext.ofJob u (job.map f) = JobContext.ofJob u job := by
  unfold JobContext.ofJob
  rw [List.foldl_map]
  exact List.foldl_ext _ _ _ fun c e he => (h e he).mark c

theorem Job.candidatesOf_restated (h : ∀ e ∈ job, (f e).Restates u e) (action : JobAction) :
    Job.candidatesOf (job.map f) u action =
      (job.candidatesOf u action).map fun p => (p.1.known, p.2) := by
  have hfilter : (job.map f).filter (fun e => e.action == action) =
      (job.filter fun e => e.action == action).map f := by
    rw [List.filter_map]
    refine congrArg _ (List.filter_congr fun e he => ?_)
    show ((f e).action == action) = _
    rw [(h e he).action]
  unfold candidatesOf
  rw [hfilter, List.map_map, List.map_map]
  refine List.map_congr_left fun e he => ?_
  have he := h e (List.mem_of_mem_filter he)
  show ((f e).flags, (f e).target.resolve u) = _
  rw [he.flags, he.target.resolve]
  rfl

/-- Which modifiers an update has matters only to whether it insists on the best. -/
theorem Setting.sameUpdates_known (s : Setting) :
    s.SameUpdates (s.updates.map fun p => (p.1.known, p.2))
      (s.distUpgrades.map fun p => (p.1.known, p.2)) where
  updateScope id := List.foldl_map
  distUpgradeScope id := List.foldl_map
  wantsBest id := by
    have hforcebest : ∀ a : JobFlags, a.known.contains .forcebest = a.contains .forcebest :=
      JobFlags.contains_known (f := (.forcebest, "forcebest")) (by decide)
    unfold wantsBest
    show (s.updates.map _).any _ = _
    rw [List.any_map]
    refine congrArg (List.any s.updates) (funext fun p => ?_)
    show (p.1.known.contains .forcebest && _) = _
    rw [hforcebest]
    rfl

theorem Setting.jobRules_restated (flags : SolverFlags) (h : ∀ e ∈ job, (f e).Restates u e) :
    (Setting.ofJob u flags (job.map f)).jobRules = (Setting.ofJob u flags job).jobRules := by
  unfold jobRules
  show ((job.map f).zipIdx).flatMap _ = job.zipIdx.flatMap _
  rw [List.zipIdx_map, List.flatMap_map]
  refine List.flatMap_congr fun p hp => ?_
  have he := h p.1 (List.fst_mem_of_mem_zipIdx hp)
  have hrules : (Setting.ofJob u flags (job.map f)).entryRules (f p.1) =
      (Setting.ofJob u flags job).entryRules p.1 :=
    JobEntry.Restates.entryRules (s := Setting.ofJob u flags job) he
  show ((Setting.ofJob u flags (job.map f)).entryRules (f p.1)).map
    (fun r => { r with job := some p.2, weak := (f p.1).isWeak }) = _
  rw [hrules, he.isWeak]

theorem Setting.allInstalledRules_restated (flags : SolverFlags)
    (h : ∀ e ∈ job, (f e).Restates u e) :
    (Setting.ofJob u flags (job.map f)).allInstalledRules =
      (Setting.ofJob u flags job).allInstalledRules := by
  have hsame := (Setting.ofJob u flags job).sameUpdates_known
  have heq : Setting.ofJob u flags (job.map f) =
      ((Setting.ofJob u flags job).withUpdates
        ((job.candidatesOf u .update).map fun p => (p.1.known, p.2))
        ((job.candidatesOf u .distUpgrade).map fun p => (p.1.known, p.2))).withJob (job.map f)
          (.ofJob u job) := by
    unfold ofJob withUpdates withJob
    rw [JobContext.ofJob_restated h, Job.candidatesOf_restated h, Job.candidatesOf_restated h]
  rw [heq, ← hsame.allInstalledRules]
  rfl

/-- **A job in other words makes the same rules.** -/
theorem Setting.rules_restated (flags : SolverFlags) (h : ∀ e ∈ job, (f e).Restates u e) :
    (Setting.ofJob u flags (job.map f)).rules = (Setting.ofJob u flags job).rules := by
  have hrequested : (Setting.ofJob u flags (job.map f)).requested =
      (Setting.ofJob u flags job).requested := by
    unfold requested
    rw [jobRules_restated flags h, allInstalledRules_restated flags h]
  have hpackages : (Setting.ofJob u flags (job.map f)).packageRules
      (Setting.ofJob u flags job).requested =
        (Setting.ofJob u flags job).packageRules (Setting.ofJob u flags job).requested := by
    refine packageRules_congr ?_ ?_ (JobContext.ofJob_restated h) _
    · rfl
    · rfl
  rw [rules_eq, rules_eq, hrequested, hpackages]

/-- **And it comes to the same.** -/
theorem solve_restated (flags : SolverFlags) (h : ∀ e ∈ job, (f e).Restates u e) :
    solve u flags (job.map f) = (solve u flags job).retold u (job.map f) := by
  have hruleSet : (Setting.ofJob u flags (job.map f)).ruleSet =
      (Setting.ofJob u flags job).ruleSet := congrArg RuleSet.ofList (Setting.rules_restated flags h)
  have hcontext : (Setting.ofJob u flags (job.map f)).context =
      (Setting.ofJob u flags job).context := JobContext.ofJob_restated h
  have huncleaned : uncleaned u flags (job.map f) =
      (uncleaned u flags job).retold u (job.map f) := by
    unfold uncleaned
    dsimp only
    rw [hruleSet, hcontext]
    rfl
  have hsolved : (uncleaned u flags (job.map f)).isSolved = (uncleaned u flags job).isSolved := by
    rw [huncleaned]
    rfl
  rw [solve_eq, solve_eq, hsolved]
  split
  · rw [huncleaned]
    have hclean : ((uncleaned u flags job).retold (u.withExcludes u.excludes rfl)
        (job.map f)).cleanUp = _ := Solution.cleanUp_retold rfl (job.map f) rfl
    exact hclean
  · exact huncleaned

end Restated

end DepSolver
