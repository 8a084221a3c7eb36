import DepSolver.Proofs.Solution.Consistency

/-!
# Requests to install, and what becomes of them

A request to install is a rule, so the search of a solved job honours it: one of its candidates is
present. Cleaning up looks at the decisions afterwards, and spares a package if the rule recorded
for its decision is a request. But a search records only the rule it decided by. A candidate that
was kept because it was installed, or that something else required, satisfies a request without
being recorded for it, and may be erased as left behind.

So a request is lost exactly if cleaning up erased every candidate that the search had settled on.
-/

namespace DepSolver

variable {world : Universe} {flags : SolverFlags} {job : Job} {e : JobEntry}

/-! ## The rule of a request -/

theorem mem_rules_of_mem_entryRules {s : Setting} (he : e ∈ s.job) {r : Rule}
    (hr : r ∈ s.entryRules e) :
    ∃ i, { r with job := some i, weak := e.isWeak } ∈ s.rules := by
  obtain ⟨i, hi⟩ := List.mem_iff_getElem?.mp he
  refine ⟨i, ?_⟩
  rw [Setting.rules_eq, Setting.requested, List.append_assoc]
  refine List.mem_append_left _ (List.mem_flatMap.mpr ⟨(e, i), ?_, ?_⟩)
  · exact List.mem_zipIdx_iff_getElem?.mpr hi
  · exact List.mem_map.mpr ⟨r, hr, rfl⟩

/-- Among the rules of a request is one that only its candidates satisfy. -/
theorem exists_candidateRule (s : Setting) (hact : e.action = .install) :
    ∃ r ∈ s.entryRules e, ∀ l, l ∈ r.literals ↔ l ∈ e.target.resolve s.world := by
  unfold Setting.entryRules
  rw [hact]
  dsimp only
  unfold Setting.installRules
  dsimp only
  by_cases hnone : (e.target.resolve s.world).isEmpty = true
  · rw [if_pos hnone]
    refine ⟨_, List.mem_singleton_self _, fun l => ?_⟩
    rw [List.isEmpty_iff.mp hnone]
    rfl
  · rw [if_neg hnone]
    exact ⟨_, List.mem_cons_self .., fun l => Rule.mem_distinct⟩

/-- **The search of a solved job honours its requests**, -/
theorem exists_candidate_uncleaned (h : (solve world flags job).isSolved = true) (he : e ∈ job)
    (hact : e.action = .install) (hhard : e.isWeak = false) :
    ∃ id ∈ e.target.resolve world, id ∈ (uncleaned world flags job).decisions.present := by
  obtain ⟨r, hr, hlits⟩ := exists_candidateRule (Setting.ofJob world flags job) hact
  obtain ⟨i, hmem⟩ := mem_rules_of_mem_entryRules he hr
  have hmodels := (RuleSet.represents_ofList _).modelsHard_iff.mp (modelsHard_of_isSolved h)
  obtain ⟨l, hl, hholds⟩ := Assignment.satisfies_iff.mp (hmodels _ hmem hhard)
  have hcandidate : l ∈ e.target.resolve world := (hlits l).mp hl
  have hpos : 0 < l := JobTarget.pos_of_mem_resolve hcandidate
  rw [Assignment.holds_of_pos hpos] at hholds
  exact ⟨l, hcandidate, (coherent_uncleaned h).mem_present.mpr ⟨hpos, hholds⟩⟩

/-- **and erases what is to go.** -/
theorem not_mem_uncleaned_of_erase {id : PackageId} (h : (solve world flags job).isSolved = true)
    (he : e ∈ job) (hact : e.action = .erase) (hhard : e.isWeak = false)
    (hid : id ∈ e.target.resolve world) :
    id ∉ (uncleaned world flags job).decisions.present := by
  have hrule : ∃ r ∈ (Setting.ofJob world flags job).entryRules e, r.literals = [-id] := by
    refine ⟨{ Rule.make .job [-id] with source := some id }, ?_, rfl⟩
    unfold Setting.entryRules
    rw [hact]
    exact List.mem_map.mpr ⟨id, hid, rfl⟩
  obtain ⟨r, hr, hliterals⟩ := hrule
  obtain ⟨i, hmem⟩ := mem_rules_of_mem_entryRules he hr
  have hmodels := (RuleSet.represents_ofList _).modelsHard_iff.mp (modelsHard_of_isSolved h)
  obtain ⟨l, hl, hholds⟩ := Assignment.satisfies_iff.mp (hmodels _ hmem hhard)
  have hl : l ∈ r.literals := hl
  rw [hliterals, List.mem_singleton] at hl
  subst hl
  intro hpresent
  obtain ⟨hpos, hin⟩ := (coherent_uncleaned h).mem_present.mp hpresent
  rw [Assignment.holds_neg (Int.ne_of_gt hpos), Assignment.holds_of_pos hpos] at hholds
  have hin : (uncleaned world flags job).decisions.presence id = true := hin
  rw [hin] at hholds
  exact absurd hholds (by simp)

/-! ## What cleaning up takes -/

/-- Whether a package is erased by an entry together with what it pulled in. -/
def Job.CleansUp (world : Universe) (job : Job) (id : PackageId) : Prop :=
  ∃ e ∈ job, e.action = .erase ∧ e.flags.contains .cleandeps = true ∧
    id ∈ e.target.resolve world ∧ world.isInstalled id = true

/-- Whether a user wants a package, by the entries of a job. -/
def Job.WantsKept (world : Universe) (job : Job) (id : PackageId) : Prop :=
  ∃ e ∈ job, e.action = .userInstalled ∧ id ∈ e.target.resolve world

theorem cleandeps_iff {id : PackageId} :
    (JobContext.ofJob world job).cleandeps.contains id = true ↔ job.CleansUp world id := by
  rw [(JobContext.gathers_ofJob world job).cleandeps id]
  refine exists_congr fun x => and_congr_right fun _ => ?_
  refine ⟨?_, ?_⟩
  · intro hx
    exact ⟨hx.1.1, hx.2.2, hx.1.2, hx.2.1⟩
  · intro hx
    exact ⟨⟨hx.1, hx.2.2.1⟩, hx.2.2.2, hx.2.1⟩

/-- A package that cleaning up took, after the search had decided that it is present. -/
structure TakenAway (world : Universe) (flags : SolverFlags) (job : Job) (id : PackageId) :
    Prop where
  absent : id ∉ (solve world flags job).decisions.present
  reason : (solve world flags job).decisions.reason? id = some .cleanDeps
  installed : world.isInstalled id = true
  unwanted : ¬job.WantsKept world id
  /-- The search had decided it for another reason than a request. -/
  undecided : (uncleaned world flags job).isDecidedByRequest id = false
  /-- Something required it that was erased along with what it pulled in, or taken itself. -/
  required : ∃ other, Solution.Requires world other id ∧
    (job.CleansUp world other ∨
      (solve world flags job).decisions.reason? other = some .cleanDeps)

/-- What the search decided to be present stays, or is taken away. -/
theorem mem_present_or_takenAway (h : (solve world flags job).isSolved = true) {id : PackageId}
    (hid : id ∈ (uncleaned world flags job).decisions.present) :
    id ∈ (solve world flags job).decisions.present ∨ TakenAway world flags job id := by
  have hcoherent := coherent_uncleaned h
  have hclean := cleans_solve h
  obtain ⟨hpos, hpresent⟩ := hcoherent.mem_present.mp hid
  rcases hclean.same_or_erased hcoherent id hpos with hsame | herased
  · refine .inl ((hclean.coherent hcoherent).mem_present.mpr ⟨hpos, ?_⟩)
    rw [hsame.1]
    exact hpresent
  · refine .inr ⟨fun hin => ?_, herased.reason, herased.installed, fun hwants => ?_,
      herased.undecided, ?_⟩
    · -- it is absent in the end
      have hpresent' := ((hclean.coherent hcoherent).mem_present.mp hin).2
      rw [herased.absent] at hpresent'
      exact absurd hpresent' (by simp)
    · have huser : (JobContext.ofJob world job).userInstalled.contains id = true :=
        ((JobContext.gathers_ofJob world job).userInstalled id).mpr hwants
      have hunwanted : (JobContext.ofJob world job).userInstalled.contains id = false :=
        herased.unwanted
      rw [huser] at hunwanted
      exact absurd hunwanted (by simp)
    · obtain ⟨other, hrequires, hgone⟩ := herased.required
      exact ⟨other, hrequires, hgone.imp_left cleandeps_iff.mp⟩

/-- Without an erasure that cleans up, nothing is taken. -/
theorem cleandeps_eq_false_of_not_cleansUp
    (hnone : ∀ x ∈ job, x.action = .erase → x.flags.contains .cleandeps = false) (x : PackageId) :
    (JobContext.ofJob world job).cleandeps.contains x = false := by
  refine Bool.eq_false_iff.mpr fun hx => ?_
  obtain ⟨a, ha, herase, hflag, -⟩ := cleandeps_iff.mp hx
  rw [hnone a ha herase] at hflag
  exact absurd hflag (by simp)

theorem present_eq_of_not_cleansUp (h : (solve world flags job).isSolved = true)
    (hnone : ∀ x ∈ job, x.action = .erase → x.flags.contains .cleandeps = false) :
    (solve world flags job).decisions.present = (uncleaned world flags job).decisions.present := by
  rw [(cleans_solve h).eq_of_spared (cleandeps_eq_false_of_not_cleansUp hnone)]

theorem solve_eq_uncleaned
    (hnone : ∀ x ∈ job, x.action = .erase → x.flags.contains .cleandeps = false) :
    solve world flags job = uncleaned world flags job := by
  by_cases h : (solve world flags job).isSolved = true
  · exact (cleans_solve h).eq_of_spared (cleandeps_eq_false_of_not_cleansUp hnone)
  · -- a job that is not solved is not cleaned up after
    rw [isSolved_solve] at h
    rw [solve_eq, if_neg h]

/--
**When a request to install is honoured.**

The search of a solved job always settles on a candidate. In the end one is present, unless cleaning
up took every candidate that the search had settled on. That cannot happen without an entry that
erases a package together with what it pulled in.
-/
theorem install_honoured_iff (world : Universe) (flags : SolverFlags) (job : Job) (e : JobEntry)
    (h : (solve world flags job).isSolved = true) (he : e ∈ job) (hact : e.action = .install)
    (hhard : e.isWeak = false) :
    (∃ id ∈ e.target.resolve world, id ∈ (uncleaned world flags job).decisions.present) ∧
    ((∃ id ∈ e.target.resolve world, id ∈ (solve world flags job).decisions.present) ↔
      ¬∀ id ∈ e.target.resolve world, id ∈ (uncleaned world flags job).decisions.present →
        TakenAway world flags job id) ∧
    ((∀ x ∈ job, x.action = .erase → x.flags.contains .cleandeps = false) →
      ∃ id ∈ e.target.resolve world, id ∈ (solve world flags job).decisions.present) := by
  have hsearch := exists_candidate_uncleaned h he hact hhard
  refine ⟨hsearch, ⟨fun hhonoured htaken => ?_, fun hnot => ?_⟩, fun hnone => ?_⟩
  · obtain ⟨id, hid, hin⟩ := hhonoured
    exact (htaken id hid (mem_uncleaned_present h hin)).absent hin
  · simp only [Classical.not_forall] at hnot
    obtain ⟨id, hid, hin, hspared⟩ := hnot
    exact ⟨id, hid, (mem_present_or_takenAway h hin).resolve_right hspared⟩
  · rw [present_eq_of_not_cleansUp h hnone]
    exact hsearch

/-! ## A request that is lost -/

/-- An installed package with what it requires, and another package that provides the same. -/
def twoProviders : Universe :=
  .ofCatalog <| .ofSystem
    [plainPackage "lib" "1" 0,
     { plainPackage "app" "1" 0 with requires := [Relation.ofName "lib"] }]
    [{ plainPackage "alt" "1" 1 with provides := [Relation.ofName "lib"] }]

/-- The job that erases the installed package with what it pulled in, and makes the request. -/
def lostJob : Job := [{ action := .erase, target := .ofName "app", flags := .cleandeps }, libEntry]

/-- The search keeps what is installed, and no request is recorded for that. -/
theorem install_lost :
    (solve twoProviders {} lostJob).isSolved = true ∧ libEntry.isWeak = false ∧
      libEntry.target.resolve twoProviders = [1, 3] ∧
      (solve twoProviders {} lostJob).decisions.present = [] ∧
      ∀ id ∈ libEntry.target.resolve twoProviders,
        id ∈ (uncleaned twoProviders {} lostJob).decisions.present →
          TakenAway twoProviders {} lostJob id := by
  have hsolved : (solve twoProviders {} lostJob).isSolved = true := by decide +kernel
  have hpresent : (solve twoProviders {} lostJob).decisions.present = [] := by decide +kernel
  have hhonoured := install_honoured_iff twoProviders {} lostJob libEntry hsolved
    (by simp [lostJob]) rfl (by decide)
  rw [hpresent] at hhonoured
  refine ⟨hsolved, by decide, by decide +kernel, hpresent, ?_⟩
  have hlost := (not_congr hhonoured.2.1).mp fun hin => by
    obtain ⟨id, -, hid⟩ := hin
    exact absurd hid (by simp)
  exact Classical.not_not.mp hlost

end DepSolver
