import DepSolver.Proofs.Goal.LimitGroups
import DepSolver.Proofs.Solution.Requests

/-!
# Where limiting opposes itself

Each install-only name is limited by itself, over the packages that are kept for it. A package may
be kept for several names, and stand among others in the order of each. So it can be within the
limit for one name and beyond it for another, and is then to be kept and to be erased.

For that the packages of its name must differ between the two names. Where they provide the same
install-only names throughout, they are in the same order for each, and nothing is opposed. Where
one is, the run fails: the entries are hard, and no solution meets both.
-/

namespace DepSolver

namespace Solution

variable {s : Solution} {name other own : String} {id : PackageId} {e : JobEntry}

/-- **A package is to be kept for a name**: there are too many of its own name, and it is among the
first of them. -/
structure KeepsFor (s : Solution) (name : String) (id : PackageId) : Prop where
  exceeds : s.Exceeds name
  tooMany : s.world.installonlyLimit < (s.wantedFirst name (s.world.nameOf id)).length
  first : id ∈ (s.wantedFirst name (s.world.nameOf id)).take s.world.installonlyLimit

/-- **A package is to be erased for a name**: there are too many of its own name, and it is not
among the first of them. -/
structure ErasesFor (s : Solution) (name : String) (id : PackageId) : Prop where
  exceeds : s.Exceeds name
  beyond : id ∈ (s.wantedFirst name (s.world.nameOf id)).drop s.world.installonlyLimit

/-- One package is both to be kept and to be erased. -/
def Opposes (s : Solution) (id : PackageId) : Prop :=
  keepEntry id ∈ s.limitEntries ∧ eraseEntry id ∈ s.limitEntries

/-! ## The entries about a package -/

theorem exceeds_of_mem_limitName (hlimit : 0 < s.world.installonlyLimit)
    (he : e ∈ s.limitName s.world.installonlyLimit name) : s.Exceeds name := by
  unfold limitName at he
  dsimp only at he
  split at he
  · exact absurd he List.not_mem_nil
  · exact mayStay_eq_false.mp ⟨hlimit, Bool.eq_false_iff.mpr ‹_›⟩

/-- An entry is made for a name that is to be limited, in the group of what it is about. -/
theorem mem_limitEntries (habout : s.world.isAbout own e = true) : e ∈ s.limitEntries ↔
    ∃ name ∈ s.world.installonly, s.Exceeds name ∧
      e ∈ limitGroup s.world.installonlyLimit (s.wantedFirst name own) := by
  have hgroup : ∀ name, s.Exceeds name →
      (e ∈ s.limitName s.world.installonlyLimit name ↔
        e ∈ limitGroup s.world.installonlyLimit (s.wantedFirst name own)) := by
    intro name hexceeds
    rw [← filter_limitName hexceeds own, List.mem_filter, and_iff_left habout]
  refine ⟨?_, ?_⟩
  · intro he
    unfold limitEntries at he
    dsimp only at he
    split at he
    · exact absurd he List.not_mem_nil
    · rename_i hlimit
      obtain ⟨name, hname, he⟩ := List.mem_flatMap.mp he
      have hexceeds := exceeds_of_mem_limitName (Nat.pos_of_ne_zero hlimit) he
      exact ⟨name, hname, hexceeds, (hgroup name hexceeds).mp he⟩
  · intro h
    obtain ⟨name, hname, hexceeds, he⟩ := h
    have hentries : s.limitEntries =
        s.world.installonly.flatMap (s.limitName s.world.installonlyLimit) :=
      if_neg hexceeds.limited.ne'
    rw [hentries]
    exact List.mem_flatMap.mpr ⟨name, hname, (hgroup name hexceeds).mpr he⟩

theorem keepEntry_mem_limitGroup {limit : Nat} {group : List PackageId} :
    keepEntry id ∈ limitGroup limit group ↔ limit < group.length ∧ id ∈ group.take limit := by
  rw [mem_limitGroup]
  refine and_congr_right fun _ => ⟨?_, fun h => .inl ⟨id, h, rfl⟩⟩
  intro h
  rcases h with ⟨x, hx, heq⟩ | ⟨x, -, heq⟩
  · have htarget : JobTarget.package id = .package x := congrArg JobEntry.target heq
    rwa [JobTarget.package.inj htarget]
  · exact JobAction.noConfusion (congrArg JobEntry.action heq)

theorem eraseEntry_mem_limitGroup {limit : Nat} {group : List PackageId} :
    eraseEntry id ∈ limitGroup limit group ↔ id ∈ group.drop limit := by
  rw [mem_limitGroup]
  refine ⟨?_, fun h => ⟨?_, .inr ⟨id, h, rfl⟩⟩⟩
  · rintro ⟨-, ⟨x, -, heq⟩ | ⟨x, hx, heq⟩⟩
    · exact JobAction.noConfusion (congrArg JobEntry.action heq)
    · have htarget : JobTarget.package id = .package x := congrArg JobEntry.target heq
      rwa [JobTarget.package.inj htarget]
  · have hpos := List.length_pos_of_mem h
    rw [List.length_drop] at hpos
    omega

theorem keepEntry_mem_limitEntries : keepEntry id ∈ s.limitEntries ↔
    ∃ name ∈ s.world.installonly, s.KeepsFor name id := by
  rw [mem_limitEntries (isAbout_keepEntry.mpr rfl)]
  refine exists_congr fun name => and_congr_right fun _ => ?_
  rw [keepEntry_mem_limitGroup]
  exact ⟨fun h => ⟨h.1, h.2.1, h.2.2⟩, fun h => ⟨h.exceeds, h.tooMany, h.first⟩⟩

theorem eraseEntry_mem_limitEntries : eraseEntry id ∈ s.limitEntries ↔
    ∃ name ∈ s.world.installonly, s.ErasesFor name id := by
  rw [mem_limitEntries (isAbout_eraseEntry.mpr rfl)]
  refine exists_congr fun name => and_congr_right fun _ => ?_
  rw [eraseEntry_mem_limitGroup]
  exact ⟨fun h => ⟨h.1, h.2⟩, fun h => ⟨h.exceeds, h.beyond⟩⟩

/-- **What is opposed** is kept for one name and erased for another. -/
theorem opposes_iff : s.Opposes id ↔ ∃ a ∈ s.world.installonly, ∃ b ∈ s.world.installonly,
    s.KeepsFor a id ∧ s.ErasesFor b id := by
  unfold Opposes
  rw [keepEntry_mem_limitEntries, eraseEntry_mem_limitEntries]
  refine ⟨?_, ?_⟩
  · rintro ⟨⟨a, ha, hkeep⟩, b, hb, herase⟩
    exact ⟨a, ha, b, hb, hkeep, herase⟩
  · rintro ⟨a, ha, b, hb, hkeep, herase⟩
    exact ⟨⟨a, ha, hkeep⟩, b, hb, herase⟩

/-! ## The names that are at odds -/

theorem pairwise_namesakes (s : Solution) (name own : String) :
    (s.namesakes name own).Pairwise (· < ·) :=
  ((PackageSet.pairwise_toList _).filter _).filter _

/-- Two names that the same packages of a name provide have the same order of them. -/
theorem wantedFirst_congr
    (h : ∀ x, s.world.nameOf x = own → (x ∈ s.keptProviders name ↔ x ∈ s.keptProviders other)) :
    s.wantedFirst name own = s.wantedFirst other own := by
  have hmem : ∀ x, x ∈ s.namesakes name own ↔ x ∈ s.namesakes other own := by
    intro x
    rw [mem_namesakes, mem_namesakes]
    exact and_congr_left (h x)
  have hperm : (s.namesakes name own).Perm (s.namesakes other own) :=
    (List.perm_ext_iff_of_nodup (s.nodup_namesakes name own) (s.nodup_namesakes other own)).mpr hmem
  have hsame : s.namesakes name own = s.namesakes other own :=
    hperm.eq_of_pairwise (fun x y _ _ hxy hyx => absurd hyx hxy.asymm)
      (s.pairwise_namesakes name own) (s.pairwise_namesakes other own)
  unfold wantedFirst
  rw [hsame]

/-- A name does not erase what it keeps. -/
theorem not_mem_drop_of_mem_take {limit : Nat}
    (hid : id ∈ (s.wantedFirst name own).take limit) :
    id ∉ (s.wantedFirst name own).drop limit := by
  have hnodup : (s.wantedFirst name own).Nodup :=
    (s.wantedFirst_perm name own).nodup_iff.mpr (s.nodup_namesakes name own)
  exact List.disjoint_take_drop hnodup le_rfl hid

/-- **Names that are at odds about a package** are told apart by one of its name. -/
theorem exists_provider_of_one (hkeep : s.KeepsFor name id) (herase : s.ErasesFor other id) :
    ∃ x, s.decisions.isPresent x = true ∧ s.world.nameOf x = s.world.nameOf id ∧
      ¬(x ∈ s.world.whatProvides (.ofName name) ↔ x ∈ s.world.whatProvides (.ofName other)) := by
  by_contra hnone
  have hsame : ∀ x, s.world.nameOf x = s.world.nameOf id →
      (x ∈ s.keptProviders name ↔ x ∈ s.keptProviders other) := by
    intro x hx
    unfold keptProviders
    rw [List.mem_filter, List.mem_filter]
    refine and_congr_left fun hpresent => ?_
    by_contra hodds
    exact hnone ⟨x, hpresent, hx, hodds⟩
  have hbeyond := herase.beyond
  rw [← wantedFirst_congr hsame] at hbeyond
  exact not_mem_drop_of_mem_take hkeep.first hbeyond

end Solution

namespace Goal

variable {g : Goal} {sf : SolverFlags} {job : Job} {flags : GoalActions} {id : PackageId}

/-- **Opposing entries have no solution.** -/
theorem isSolved_limitedJob_of_opposes (hopposes : (solve g.world sf job).Opposes id)
    (hsolved : (solve g.world sf job).isSolved = true) :
    (solve g.world sf (g.limitedJob sf job)).isSolved = false := by
  obtain ⟨hkeep, herase⟩ := hopposes
  have hmem : ∀ e ∈ (solve g.world sf job).limitEntries, e ∈ g.limitedJob sf job := by
    intro e he
    unfold limitedJob limiting
    rw [if_pos hsolved]
    exact List.mem_append_left _ (List.mem_append_right _ he)
  by_contra hlimited
  rw [Bool.not_eq_false] at hlimited
  have hhard : JobFlags.contains {} .weak = false := by decide
  -- the only candidate of the one entry is what the other erases
  obtain ⟨x, hx, hpresent⟩ := exists_candidate_uncleaned hlimited (hmem _ hkeep) rfl hhard
  obtain ⟨-, rfl⟩ := JobTarget.mem_resolve_package.mp hx
  exact not_mem_uncleaned_of_erase hlimited (hmem _ herase) rfl hhard hx hpresent

/-- Where versions are ordered both solves of a run and what is between them can put all candidates
in order, -/
theorem ranksAll_of_ordersVersions (h : g.world.OrdersVersions) (sf : SolverFlags) (job : Job) :
    g.ranksAll sf job = true := by
  have hkept : (solve g.world sf job).ranksKept = true := by
    refine Solution.ranksKept_of_ordersVersions ?_
    rw [world_solve]
    exact h
  unfold ranksAll
  dsimp only
  rw [ranksJob_of_ordersVersions h, ranksJob_of_ordersVersions h, hkept, Bool.or_true,
    Bool.or_true]
  rfl

/-- **and so every run has an answer.** -/
theorem run?_of_ordersVersions (h : g.world.OrdersVersions) (flags : GoalActions) :
    g.run? flags = some (g.run flags) := by
  have hworld : (g.ready flags).world.OrdersVersions := by
    rw [world_ready]
    exact h
  unfold run?
  rw [ranksAll_of_ordersVersions hworld, if_pos rfl]

/--
**Where limiting opposes itself, and what comes of it.**

In every solution, a package is both to be kept and to be erased exactly if there are two
install-only names, and the package is among the first of its name for one of them, and beyond the
limit for the other. Some package of its name is then kept for one of the two names alone; so
nothing is opposed where the packages of each name provide the same install-only names. If the
first solve of a run opposes itself, the run has no solution. Where versions are ordered this is
what the run answers.
-/
theorem opposes_and_fails (s : Solution) :
    (∀ id, s.Opposes id ↔ ∃ a ∈ s.world.installonly, ∃ b ∈ s.world.installonly,
      s.KeepsFor a id ∧ s.ErasesFor b id) ∧
    (∀ id, s.Opposes id → ∃ a ∈ s.world.installonly, ∃ b ∈ s.world.installonly, ∃ x,
      s.decisions.isPresent x = true ∧ s.world.nameOf x = s.world.nameOf id ∧
        ¬(x ∈ s.world.whatProvides (.ofName a) ↔ x ∈ s.world.whatProvides (.ofName b))) ∧
    (∀ (g : Goal) (flags : GoalActions) (id : PackageId),
      s = solve g.world (g.runFlags flags) (g.runJob flags) → s.isSolved = true → s.Opposes id →
        (g.run flags).outcome = .error .noSolutionPossible) ∧
    (∀ (g : Goal) (flags : GoalActions), g.world.OrdersVersions →
      g.run? flags = some (g.run flags)) := by
  refine ⟨fun _ => Solution.opposes_iff, ?_, ?_, fun _ flags h => run?_of_ordersVersions h flags⟩
  · intro id hopposes
    obtain ⟨a, ha, b, hb, hkeep, herase⟩ := Solution.opposes_iff.mp hopposes
    exact ⟨a, ha, b, hb, Solution.exists_provider_of_one hkeep herase⟩
  · intro g flags id hfirst hsolved hopposes
    subst hfirst
    have hlimiting : keepEntry id ∈ (g.ready flags).limiting (g.runFlags flags) (g.runJob flags) := by
      unfold limiting
      rw [world_ready, if_pos hsolved]
      exact hopposes.1
    have hlast : (g.resolved flags).1 = solve (g.ready flags).world (g.runFlags flags)
        ((g.ready flags).limitedJob (g.runFlags flags) (g.runJob flags)) := by
      unfold resolved
      rw [fst_resolve, if_neg]
      rw [List.isEmpty_iff]
      exact List.ne_nil_of_mem hlimiting
    rw [← world_ready g flags] at hsolved hopposes
    have hunsolved : (g.resolved flags).1.isSolved = false := by
      rw [hlast]
      exact isSolved_limitedJob_of_opposes hopposes hsolved
    rw [run_eq]
    exact ((g.ready flags).conclude_of_isSolved_eq_false hunsolved _).2

/-- One of the kernels provides a second install-only name no more, and for each name one package
may be kept. -/
def diverging : Universe :=
  .ofCatalog
    { Catalog.ofSystem
        [{ plainPackage "kernel" "1" 0 with provides := [Relation.ofName "installonlypkg(kernel)"] }]
        [{ plainPackage "kernel" "2" 1 with
           provides := [Relation.ofName "installonlypkg(kernel)", Relation.ofName "extra"] },
         { plainPackage "kernel" "3" 1 with recommends := [Relation.ofName "extra"] }] with
      installonly := ["kernel", "installonlypkg(kernel)"]
      installonlyLimit := 1 }

/-- The newest kernel is asked for. -/
def divergingGoal : Goal := (ofUniverse diverging).install 3 false

/-- What the first solve comes to. -/
def divergingFirst : Solution :=
  solve diverging (divergingGoal.runFlags {}) (divergingGoal.runJob {})

/-- It brings in the second one, which is to be erased for one name and kept for the other. -/
theorem opposes_and_fails_diverging :
    divergingFirst.isSolved = true ∧ divergingFirst.Opposes 2 ∧
      (divergingGoal.run {}).outcome = .error .noSolutionPossible ∧
      divergingGoal.run? {} = some (divergingGoal.run {}) := by
  have hsolved : divergingFirst.isSolved = true := by decide +kernel
  obtain ⟨hiff, -, hfails, hanswers⟩ := opposes_and_fails divergingFirst
  have hkeeps : divergingFirst.KeepsFor "installonlypkg(kernel)" 2 :=
    ⟨⟨by decide +kernel, by decide +kernel, 2, by decide +kernel, by decide +kernel⟩,
      by decide +kernel, by decide +kernel⟩
  have herases : divergingFirst.ErasesFor "kernel" 2 :=
    ⟨⟨by decide +kernel, by decide +kernel, 2, by decide +kernel, by decide +kernel⟩,
      by decide +kernel⟩
  have hopposes : divergingFirst.Opposes 2 :=
    (hiff 2).mpr ⟨_, by decide +kernel, _, by decide +kernel, hkeeps, herases⟩
  have hordered : divergingGoal.world.OrdersVersions :=
    Universe.ordersVersions_of_hasRelease (by decide +kernel)
  exact ⟨hsolved, hopposes, hfails divergingGoal {} 2 rfl hsolved hopposes,
    hanswers divergingGoal {} hordered⟩

end Goal

end DepSolver
