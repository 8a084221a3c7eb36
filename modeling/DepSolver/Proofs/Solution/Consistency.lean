import DepSolver.Proofs.Solution.Verdict

/-!
# What a solved job leaves is consistent

The rules of packages ask for consistency, but only among packages that come into play, and only
until the search ends. Two facts close the gaps. A search never leaves what is in play, so whatever
is present in the end was looked at when the rules were made. And cleaning up takes packages away
one by one, none of which a package that stays needs; taking packages away breaks nothing else.

What was broken among the installed packages before is not held against them, unless the job asks
for verification.
-/

namespace DepSolver

/-- Whether what is broken among the installed packages is put up with. -/
def Job.Tolerates (job : Job) : Prop := ∀ e ∈ job, e.action ≠ .verify

/-- Whether a job asks for versions of a package to be kept side by side. -/
def Job.KeepsVersions (world : Universe) (job : Job) (id : PackageId) : Prop :=
  ∃ e ∈ job, e.action = .multiversion ∧ id ∈ e.target.resolve world

/-- **A consistent set of packages**, for a universe and a job. -/
structure ConsistentSet (world : Universe) (job : Job) (kept : List PackageId) : Prop where
  /-- Requirements are met, but for those that nothing installed met before. -/
  requires : ∀ {id : PackageId} {p : Package}, id ∈ kept → world.package? id = some p →
    ∀ r ∈ p.requires, (∃ q ∈ kept, q ∈ world.whatProvides r) ∨
      (world.isInstalled id = true ∧ job.Tolerates ∧
        ∀ q ∈ world.whatProvides r, world.isInstalled q = false)
  /-- Only packages that were installed together conflict. -/
  conflicts : ∀ {id q : PackageId} {p : Package}, id ∈ kept → q ∈ kept → q ≠ id →
    world.package? id = some p → ∀ c ∈ p.conflicts, q ∈ world.whatProvides c →
      world.isInstalled id = true ∧ world.isInstalled q = true ∧ job.Tolerates
  /-- No package conflicts with what it provides itself. -/
  selfConflicts : ∀ {id : PackageId} {p : Package}, id ∈ kept → world.package? id = some p →
    ∀ c ∈ p.conflicts, id ∉ world.whatProvides c
  /-- Packages of one name were installed together, or are versions kept side by side. -/
  sameName : ∀ {a b : PackageId} {p q : Package}, a ∈ kept → b ∈ kept → a ≠ b →
    world.package? a = some p → world.package? b = some q → p.name = q.name →
      p.archCompatible q = true →
        (world.isInstalled a = true ∧ world.isInstalled b = true ∧ job.Tolerates) ∨
          ((job.KeepsVersions world a ∨ job.KeepsVersions world b) ∧ p.sameNevra q = false)
  /-- Only packages that were installed together obsolete each other. -/
  obsoletes : ∀ {a b : PackageId} {p q : Package}, a ∈ kept → b ∈ kept →
    world.package? a = some p → world.package? b = some q → p.obsoletesPackage q = true →
      world.isInstalled a = true ∧ world.isInstalled b = true
  /-- What is excluded was installed. -/
  visible : ∀ {id : PackageId}, id ∈ kept → world.excludes.contains id = true →
    world.isInstalled id = true

variable {world : Universe} {flags : SolverFlags} {job : Job}

/-! ## Before cleaning up -/

theorem verify_eq_false : (JobContext.ofJob world job).verify = false ↔ job.Tolerates := by
  rw [← Bool.not_eq_true, (JobContext.gathers_ofJob world job).verify]
  unfold Job.Tolerates
  simp only [not_exists, not_and]

theorem multiversion_iff {id : PackageId} :
    (JobContext.ofJob world job).multiversion.contains id = true ↔ job.KeepsVersions world id :=
  (JobContext.gathers_ofJob world job).multiversion id

/-- What the search decides is consistent among the packages in play. -/
theorem consistent_uncleaned (h : (solve world flags job).isSolved = true) :
    (Setting.ofJob world flags job).Consistent
      (· ∈ (Setting.ofJob world flags job).visited (Setting.ofJob world flags job).requested)
      (uncleaned world flags job).decisions.presence :=
  Setting.consistent_of_modelsHard
    ((RuleSet.represents_ofList _).modelsHard_iff.mp (modelsHard_of_isSolved h))

theorem coherent_uncleaned (h : (solve world flags job).isSolved = true) :
    (uncleaned world flags job).decisions.Coherent := (solves_of_isSolved h).2.coherent

/-- What the search decides to be present is in play. -/
theorem visited_of_mem_present (h : (solve world flags job).isSolved = true) {id : PackageId}
    (hid : id ∈ (uncleaned world flags job).decisions.present) :
    id ∈ (Setting.ofJob world flags job).visited (Setting.ofJob world flags job).requested := by
  have hstays := (solves_of_isSolved h).2.admits_present id hid
  exact hstays.2 ((coherent_uncleaned h).mem_present.mp hid).1

theorem mem_uncleaned_present (h : (solve world flags job).isSolved = true) {id : PackageId}
    (hid : id ∈ (solve world flags job).decisions.present) :
    id ∈ (uncleaned world flags job).decisions.present :=
  (cleans_solve h).mem_present (coherent_uncleaned h) hid

/-! ## After cleaning up -/

section

variable (h : (solve world flags job).isSolved = true)
include h

/-- What is left was in play, -/
theorem visited_of_mem_solve {id : PackageId}
    (hid : id ∈ (solve world flags job).decisions.present) :
    id ∈ (Setting.ofJob world flags job).visited (Setting.ofJob world flags job).requested :=
  visited_of_mem_present h (mem_uncleaned_present h hid)

/-- and the search had decided that it is present. -/
theorem presence_of_mem_solve {id : PackageId}
    (hid : id ∈ (solve world flags job).decisions.present) :
    (uncleaned world flags job).decisions.presence id = true :=
  ((coherent_uncleaned h).mem_present.mp (mem_uncleaned_present h hid)).2

theorem isConsidered_of_mem_solve {id : PackageId}
    (hid : id ∈ (solve world flags job).decisions.present) : world.isConsidered id = true := by
  have hconsidered := Setting.isConsidered_of_visited
    (Setting.ofJob world flags job).allFresh_requested (visited_of_mem_solve h hid)
  exact hconsidered

/-- Requirements of what is left are met by what is left. -/
theorem requirement_met_of_mem_solve {id : PackageId} {p : Package}
    (hid : id ∈ (solve world flags job).decisions.present) (hp : world.package? id = some p)
    {r : Relation} (hr : r ∈ p.requires)
    (hbroken : (Setting.ofJob world flags job).isBrokenRequirement id
      (world.whatProvides r) = false) :
    ∃ q ∈ (solve world flags job).decisions.present, q ∈ world.whatProvides r := by
  have hcoherent := coherent_uncleaned h
  have hclean := cleans_solve h
  by_cases hself : id ∈ world.whatProvides r
  · exact ⟨id, hid, hself⟩
  · -- another package met the requirement when the search ended, so one still does
    have hlive : (r, world.whatProvides r) ∈
        (Setting.ofJob world flags job).liveRequirements id p := by
      refine List.mem_filter.mpr ⟨List.mem_map.mpr ⟨r, hr, rfl⟩, ?_⟩
      rw [Bool.and_eq_true, Bool.not_eq_true', Bool.not_eq_true']
      exact ⟨Bool.eq_false_iff.mpr fun hc => hself (List.contains_iff_mem.mp hc), hbroken⟩
    obtain ⟨x, hx, hpresent⟩ := (consistent_uncleaned h).requires (visited_of_mem_solve h hid) hp
      (presence_of_mem_solve h hid) _ hlive
    have hne : x ≠ id := fun he => hself (he ▸ hx)
    obtain ⟨q, hq, -, hstill⟩ := hclean.requirement_met hcoherent hid hp hr ⟨x, hx, hne, hpresent⟩
    have hpos := Universe.pos_of_isConsidered (Universe.isConsidered_of_mem_whatProvides hq)
    exact ⟨q, (hclean.coherent hcoherent).mem_present.mpr ⟨hpos, hstill⟩, hq⟩

/-- Packages that conflict and are both left were installed together. -/
theorem installed_of_conflict {id q : PackageId} {p : Package}
    (hid : id ∈ (solve world flags job).decisions.present)
    (hq : q ∈ (solve world flags job).decisions.present) (hp : world.package? id = some p)
    {c : Relation} (hc : c ∈ p.conflicts) (hprov : q ∈ world.whatProvides c) :
    world.isInstalled id = true ∧ world.isInstalled q = true ∧ job.Tolerates := by
  have hout := ((consistent_uncleaned h).conflicts (visited_of_mem_solve h hid) hp
    (presence_of_mem_solve h hid) c hc q hprov).2
  by_cases htol : ((Setting.ofJob world flags job).toleratesBroken id && world.isInstalled q) = true
  · unfold Setting.toleratesBroken at htol
    simp only [Bool.and_eq_true, Bool.not_eq_true'] at htol
    exact ⟨htol.1.1, htol.2, verify_eq_false.mp htol.1.2⟩
  · have habsent := hout (Bool.not_eq_true _ ▸ htol)
    rw [presence_of_mem_solve h hq] at habsent
    exact absurd habsent (by simp)

/-- One of the two exemptions applies to packages of one name that are both left. -/
theorem installed_or_versions_of_sameName {a b : PackageId} {p q : Package}
    (ha : a ∈ (solve world flags job).decisions.present)
    (hb : b ∈ (solve world flags job).decisions.present) (hne : a ≠ b)
    (hp : world.package? a = some p) (hq : world.package? b = some q) (hname : p.name = q.name)
    (harch : p.archCompatible q = true) :
    (world.isInstalled a = true ∧ world.isInstalled b = true ∧ job.Tolerates) ∨
      ((job.KeepsVersions world a ∨ job.KeepsVersions world b) ∧ p.sameNevra q = false) := by
  have hex : (Setting.ofJob world flags job).excludesSameName a b p q = false := by
    refine Bool.eq_false_iff.mpr fun hex => ?_
    have hnot := (consistent_uncleaned h).sameName (visited_of_mem_solve h ha)
      (visited_of_mem_solve h hb) hp hq hne hname hex
    rw [presence_of_mem_solve h ha, presence_of_mem_solve h hb] at hnot
    exact absurd hnot (by simp)
  unfold Setting.excludesSameName at hex
  rw [harch, Bool.true_and, Bool.and_eq_false_iff, Bool.or_eq_false_iff, Bool.or_eq_false_iff,
    Bool.not_eq_false', Bool.not_eq_false', Bool.and_eq_true, Bool.or_eq_true] at hex
  rcases hex with hinst | hversions
  · exact .inl ⟨hinst.2.1, hinst.2.2, verify_eq_false.mp hinst.1⟩
  · exact .inr ⟨hversions.2.imp multiversion_iff.mp multiversion_iff.mp, hversions.1⟩

/-- Packages of which one obsoletes the other, and which are both left, were installed together. -/
theorem installed_of_obsoletes {a b : PackageId} {p q : Package}
    (ha : a ∈ (solve world flags job).decisions.present)
    (hb : b ∈ (solve world flags job).decisions.present) (hp : world.package? a = some p)
    (hq : world.package? b = some q) (hobs : p.obsoletesPackage q = true) :
    world.isInstalled a = true ∧ world.isInstalled b = true := by
  unfold Package.obsoletesPackage at hobs
  rw [Bool.and_eq_true, bne_iff_ne, List.any_eq_true] at hobs
  obtain ⟨hname, o, ho, hmatch⟩ := hobs
  rw [Bool.and_eq_true, beq_iff_eq] at hmatch
  have hmem : b ∈ world.packagesByName o.name := Universe.mem_packagesByName.mpr
    ⟨isConsidered_of_mem_solve h hb, q, hq, hmatch.1.symm⟩
  have hne : b ≠ a := by
    intro he
    rw [he, hp] at hq
    exact hname (by rw [Option.some.inj hq])
  by_cases hinst : (world.isInstalled a && world.isInstalled b) = true
  · exact Bool.and_eq_true_iff.mp hinst
  · have habsent := (consistent_uncleaned h).obsoletes (visited_of_mem_solve h ha) hp
      (presence_of_mem_solve h ha) o ho (visited_of_mem_solve h hb) hmem hne
      (Bool.not_eq_true _ ▸ hinst) hq (fun he => hname he.symm) hmatch.2
    rw [presence_of_mem_solve h hb] at habsent
    exact absurd habsent (by simp)

end

/-- **What a solved job leaves is consistent.** -/
theorem consistentSet_solve (world : Universe) (flags : SolverFlags) (job : Job)
    (h : (solve world flags job).isSolved = true) :
    ConsistentSet world job (solve world flags job).decisions.present := by
  refine ⟨fun {id p} hid hp r hr => ?_, fun hid hq _ hp c hc hprov => ?_,
    fun {id p} hid hp c hc hself => ?_, fun ha hb hne hp hq hname harch => ?_,
    fun ha hb hp hq hobs => ?_, fun {id} hid hexcluded => ?_⟩
  · by_cases hbroken : (Setting.ofJob world flags job).isBrokenRequirement id
        (world.whatProvides r) = true
    · -- nothing installed met the requirement before
      unfold Setting.isBrokenRequirement Setting.toleratesBroken at hbroken
      simp only [Bool.and_eq_true, Bool.not_eq_true', List.any_eq_false, Bool.not_eq_true]
        at hbroken
      obtain ⟨⟨hinst, hverify⟩, hnone⟩ := hbroken
      exact .inr ⟨hinst, verify_eq_false.mp hverify, hnone⟩
    · exact .inl (requirement_met_of_mem_solve h hid hp hr (Bool.not_eq_true _ ▸ hbroken))
  · exact installed_of_conflict h hid hq hp hc hprov
  · exact ((consistent_uncleaned h).conflicts (visited_of_mem_solve h hid) hp
      (presence_of_mem_solve h hid) c hc id hself).1 rfl
  · exact installed_or_versions_of_sameName h ha hb hne hp hq hname harch
  · exact installed_of_obsoletes h ha hb hp hq hobs
  · -- what can be seen is installed or not excluded
    have hvisible := (Universe.isConsidered_iff.mp (isConsidered_of_mem_solve h hid)).2
    exact hvisible.resolve_right (by rw [hexcluded]; simp)

/-- The wanted package takes its place, and what was broken before stays as it is. -/
theorem consistentSet_stubborn :
    (solve stubborn {} [wantedEntry]).decisions.present = [1, 2, 5, 6] ∧
      ConsistentSet stubborn [wantedEntry] [1, 2, 5, 6] := by
  have hsolved : (solve stubborn {} [wantedEntry]).isSolved = true := by decide +kernel
  have hpresent : (solve stubborn {} [wantedEntry]).decisions.present = [1, 2, 5, 6] := by
    decide +kernel
  have hconsistent := consistentSet_solve stubborn {} [wantedEntry] hsolved
  rw [hpresent] at hconsistent
  exact ⟨hpresent, hconsistent⟩

end DepSolver
