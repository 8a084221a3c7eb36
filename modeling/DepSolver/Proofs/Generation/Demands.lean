import DepSolver.Proofs.Generation.Context

/-!
# Jobs that ask no more than others

Taking a job and adding an entry to it changes the rules in many places: the entry may bring in
packages and with them their rules, and what it marks may do away with rules of installed packages.
`Setting.Loosens` says when none of this asks for more than before: then every assignment that
satisfies the hard rules of the job without the entry gives one that satisfies those with it.

That assignment leaves out everything the rules of the smaller job never spoke of. Packages that
only the entry brings into play are then absent, and ask for nothing.
-/

namespace DepSolver

/-- What an assignment says of some packages, with all others left out. -/
def Assignment.restrict (α : Assignment) (packages : List PackageId) : Assignment :=
  fun id => α id && packages.contains id

namespace Assignment

variable {α : Assignment} {packages : List PackageId} {id : PackageId}

theorem restrict_eq_true :
    α.restrict packages id = true ↔ α id = true ∧ id ∈ packages := by
  unfold restrict
  rw [Bool.and_eq_true, List.contains_iff_mem]

theorem restrict_eq_false (h : α id = false) : α.restrict packages id = false := by
  unfold restrict
  rw [h, Bool.false_and]

/-- A rule whose candidates are kept stays satisfied. -/
theorem satisfies_restrict {r : Rule} (hr : α.satisfies r = true)
    (hkeep : ∀ l ∈ r.literals, 0 < l → l ∈ packages) :
    (α.restrict packages).satisfies r = true := by
  obtain ⟨l, hl, hholds⟩ := satisfies_iff.mp hr
  refine satisfies_iff.mpr ⟨l, hl, ?_⟩
  by_cases hpos : 0 < l
  · rw [holds_of_pos hpos] at hholds ⊢
    exact restrict_eq_true.mpr ⟨hholds, hkeep l hl hpos⟩
  · unfold holds at hholds ⊢
    rw [if_neg hpos, Bool.not_eq_true'] at hholds
    rw [if_neg hpos, restrict_eq_false hholds, Bool.not_false]

end Assignment

namespace Setting

/-- The setting with another job that asks for the same updates. -/
def withJob (s : Setting) (job : Job) (c : JobContext) : Setting := { s with job, context := c }

/-- Whether other marks say the same about the relations between packages. -/
structure Relates (s : Setting) (c : JobContext) : Prop where
  verify : c.verify = s.context.verify
  multiversion : ∀ id, c.multiversion.contains id = s.context.multiversion.contains id

/-- **Whether another job asks for no more than the job of a setting.** -/
structure Loosens (s : Setting) (job : Job) (c : JobContext) : Prop where
  verify : c.verify = s.context.verify
  multiversion : ∀ id, c.multiversion.contains id = s.context.multiversion.contains id
  /-- What is to be erased has no rules of its own. -/
  erase : ∀ id, s.context.erase.contains id = true → c.erase.contains id = true
  /-- What may be removed is not asked to stay. -/
  allowUninstall : ∀ id,
    s.context.allowUninstall.contains id = true → c.allowUninstall.contains id = true
  /-- Every hard request was made before. -/
  requests : ∀ r ∈ (s.withJob job c).jobRules, r.weak = false →
    ∃ r' ∈ s.jobRules, r'.weak = false ∧ r'.literals = r.literals

variable {s : Setting} {job : Job} {c : JobContext}

theorem Relates.toleratesBroken (h : s.Relates c) (job : Job) (id : PackageId) :
    (s.withJob job c).toleratesBroken id = s.toleratesBroken id := by
  unfold Setting.toleratesBroken withJob
  rw [h.verify]

theorem Relates.liveRequirements (h : s.Relates c) (job : Job) (id : PackageId) (p : Package) :
    (s.withJob job c).liveRequirements id p = s.liveRequirements id p := by
  unfold Setting.liveRequirements isBrokenRequirement
  rw [h.toleratesBroken]
  rfl

theorem Relates.excludesSameName (h : s.Relates c) (job : Job) (a b : PackageId) (p q : Package) :
    (s.withJob job c).excludesSameName a b p q = s.excludesSameName a b p q := by
  unfold Setting.excludesSameName withJob
  rw [h.verify, h.multiversion, h.multiversion]

/-- What was in play and consistent stays consistent when more comes into play, as long as nothing
of it is present. -/
theorem Relates.consistent (h : s.Relates c) (job : Job) {α : Assignment}
    (hα : s.Consistent (· ∈ s.visited s.requested) α) (visited : PackageId → Prop) :
    (s.withJob job c).Consistent visited (α.restrict (s.visited s.requested)) := by
  refine ⟨?_, ?_, ?_, ?_⟩
  · intro id p _ hp hid q hq
    obtain ⟨hid, hvisited⟩ := Assignment.restrict_eq_true.mp hid
    rw [h.liveRequirements] at hq
    -- what met the requirement was in play, so it was not taken away
    obtain ⟨x, hx, hxα⟩ := hα.requires hvisited hp hid q hq
    exact ⟨x, hx, Assignment.restrict_eq_true.mpr ⟨hxα, visited_of_requires hvisited hp hq hx⟩⟩
  · intro id p _ hp hid d hd x hx
    obtain ⟨hid, hvisited⟩ := Assignment.restrict_eq_true.mp hid
    obtain ⟨hne, hout⟩ := hα.conflicts hvisited hp hid d hd x hx
    refine ⟨hne, fun htol => Assignment.restrict_eq_false (hout ?_)⟩
    rw [h.toleratesBroken] at htol
    exact htol
  · intro a b p q _ _ hp hq hne hname hex
    rw [h.excludesSameName] at hex
    by_cases ha : a ∈ s.visited s.requested
    · by_cases hb : b ∈ s.visited s.requested
      · exact (hα.sameName ha hb hp hq hne hname hex).imp Assignment.restrict_eq_false
          Assignment.restrict_eq_false
      · -- what was not in play is absent
        refine .inr (Bool.eq_false_iff.mpr fun hb' => ?_)
        exact hb (Assignment.restrict_eq_true.mp hb').2
    · refine .inl (Bool.eq_false_iff.mpr fun ha' => ?_)
      exact ha (Assignment.restrict_eq_true.mp ha').2
  · intro id p _ hp hid o ho x q _ hx hne htol hq hname hevr
    obtain ⟨hid, hvisited⟩ := Assignment.restrict_eq_true.mp hid
    refine Bool.eq_false_iff.mpr fun hx' => ?_
    obtain ⟨hxα, hxv⟩ := Assignment.restrict_eq_true.mp hx'
    rw [hα.obsoletes hvisited hp hid o ho hxv hx hne htol hq hname hevr] at hxα
    exact absurd hxα (by simp)

theorem Loosens.relates (h : s.Loosens job c) : s.Relates c := ⟨h.verify, h.multiversion⟩

/-- A package that is asked to stay by other marks is asked to stay, unless it may go. -/
theorem Relates.mem_stayRules (h : s.Relates c) {id : PackageId} {p : Package} {r : Rule}
    (hallow : s.context.allowUninstall.contains id = true → c.allowUninstall.contains id = true)
    (hr : r ∈ (s.withJob job c).stayRules id p) : r ∈ s.stayRules id p := by
  have hmulti : (s.withJob job c).context.multiversion.contains id =
    s.context.multiversion.contains id := h.multiversion id
  unfold stayRules at hr ⊢
  dsimp only at hr ⊢
  rw [hmulti] at hr
  rcases List.mem_append.mp hr with hr | hr
  · exact List.mem_append_left _ hr
  · refine List.mem_append_right _ ?_
    by_cases hallow' : (s.withJob job c).context.allowUninstall.contains id = true
    · rw [if_pos hallow'] at hr
      exact absurd hr (by simp)
    · rw [if_neg hallow'] at hr
      rw [if_neg fun hs => hallow' (hallow hs)]
      exact hr

/-- A rule of an installed package by other marks is one of it, if it is when the package is asked
to stay. -/
theorem mem_installedRules_of_withJob {id : PackageId} {p : Package} {r : Rule}
    (herase : s.context.erase.contains id = true → c.erase.contains id = true)
    (hstays : r ∈ (s.withJob job c).stayRules id p → r ∈ s.stayRules id p)
    (hr : r ∈ (s.withJob job c).installedRules id p) : r ∈ s.installedRules id p := by
  have hscope : (s.withJob job c).distUpgradeScope id = s.distUpgradeScope id := rfl
  have hcandidates : (s.withJob job c).distUpgradeCandidates id p (s.distUpgradeScope id) =
    s.distUpgradeCandidates id p (s.distUpgradeScope id) := rfl
  have hflags : (s.withJob job c).flags = s.flags := rfl
  unfold installedRules at hr ⊢
  dsimp only at hr ⊢
  rw [hscope, hcandidates, hflags] at hr
  -- both settings ask for the same updates, so only what is erased or may go differs
  generalize (if (s.distUpgradeScope id).isTouched = true
    then s.distUpgradeCandidates id p (s.distUpgradeScope id) else []) = candidates at hr ⊢
  by_cases herase' : (s.withJob job c).context.erase.contains id = true
  · rw [if_pos herase'] at hr
    exact absurd hr (by simp)
  · rw [if_neg herase'] at hr
    rw [if_neg fun hs => herase' (herase hs)]
    split at hr
    · rename_i hsome
      rw [if_pos hsome]
      exact hr
    · rename_i hsome
      rw [if_neg hsome]
      split at hr
      · rename_i horphan
        rw [if_pos horphan]
        exact hr
      · rename_i horphan
        rw [if_neg horphan]
        exact hstays hr

/-- A package of which the marks say the same keeps its rules. -/
theorem Relates.installedRules_eq (h : s.Relates c) {id : PackageId} (p : Package)
    (herase : c.erase.contains id = s.context.erase.contains id)
    (hallow : c.allowUninstall.contains id = s.context.allowUninstall.contains id) :
    (s.withJob job c).installedRules id p = s.installedRules id p := by
  have hcontext : (s.withJob job c).context = c := rfl
  have hstay : (s.withJob job c).stayRules id p = s.stayRules id p := by
    unfold stayRules
    rw [hcontext, hallow, h.multiversion]
    rfl
  unfold installedRules
  rw [hcontext, herase, hstay]
  rfl

theorem Loosens.mem_installedRules (h : s.Loosens job c) {id : PackageId} {p : Package} {r : Rule}
    (hr : r ∈ (s.withJob job c).installedRules id p) : r ∈ s.installedRules id p :=
  mem_installedRules_of_withJob (h.erase id) (h.relates.mem_stayRules (h.allowUninstall id)) hr

/-- Installed packages get no rules that they did not have. -/
theorem Loosens.mem_allInstalledRules (h : s.Loosens job c) {r : Rule}
    (hr : r ∈ (s.withJob job c).allInstalledRules) : r ∈ s.allInstalledRules := by
  obtain ⟨id, hid, hr⟩ := List.mem_flatMap.mp hr
  refine List.mem_flatMap.mpr ⟨id, hid, ?_⟩
  have hworld : (s.withJob job c).world = s.world := rfl
  rw [hworld] at hr
  cases hp : s.world.package? id with
  | none =>
      rw [hp] at hr
      exact absurd hr (by simp)
  | some p =>
      rw [hp] at hr
      exact h.mem_installedRules hr

/-- What is not in play can be left out of what satisfies a request. -/
theorem satisfies_restrict_of_mem_requested {α : Assignment} (hα : α.ModelsHard s.rules) {r : Rule}
    (hr : r ∈ s.requested) (hhard : r.weak = false) :
    (α.restrict (s.visited s.requested)).satisfies r = true := by
  refine Assignment.satisfies_restrict (hα r ?_ hhard) fun l hl hpos => ?_
  · rw [rules_eq]
    exact List.mem_append_left _ hr
  · exact visited_of_mem_literals s.allFresh_requested hr hl hpos

/-- **A job that asks for no more can be satisfied if the other can.** -/
theorem Loosens.modelsHard (h : s.Loosens job c) {α : Assignment} (hα : α.ModelsHard s.rules) :
    (α.restrict (s.visited s.requested)).ModelsHard (s.withJob job c).rules := by
  have hconsistent := consistent_of_modelsHard hα
  intro r hr hhard
  rw [rules_eq, List.mem_append] at hr
  rcases hr with hr | hr
  · rcases List.mem_append.mp hr with hr | hr
    · -- a request: the same literals were asked for before
      obtain ⟨r', hr', hhard', hlits⟩ := h.requests r hr hhard
      rw [← Assignment.satisfies_congr fun l => by rw [hlits]]
      exact satisfies_restrict_of_mem_requested hα (List.mem_append_left _ hr') hhard'
    · have hrequested := List.mem_append_right s.jobRules (h.mem_allInstalledRules hr)
      exact satisfies_restrict_of_mem_requested hα hrequested hhard
  · exact models_packageRules.mpr (h.relates.consistent job hconsistent _) r hr

end Setting

/-! ## Weak entries -/

/-- The actions whose weak entries ask for nothing. -/
def JobAction.yields : JobAction → Bool
  | install | erase | allowUninstall | userInstalled => true
  | update | distUpgrade | verify | multiversion => false

theorem JobAction.ne_of_yields {a b : JobAction} (ha : a.yields = true) (hb : b.yields = false) :
    a ≠ b := by
  intro he
  rw [he, hb] at ha
  exact absurd ha (by simp)

variable {u : Universe} {e : JobEntry} {before after : Job}

theorem Job.candidatesOf_insert {action : JobAction} (h : e.action ≠ action) :
    (before ++ e :: after).candidatesOf u action = (before ++ after).candidatesOf u action := by
  unfold candidatesOf
  rw [List.filter_append, List.filter_append, List.filter_cons_of_neg]
  rw [beq_iff_eq]
  exact h

theorem Job.exists_mem_insert {P : JobEntry → Prop} :
    (∃ x ∈ before ++ e :: after, P x) ↔ P e ∨ ∃ x ∈ before ++ after, P x := by
  simp only [List.mem_append, List.mem_cons, or_and_right, exists_or, exists_eq_left]
  exact or_left_comm

/-- **A weak entry that installs, erases or marks asks for nothing more.** -/
theorem Setting.loosens_of_isWeak (flags : SolverFlags) (hweak : e.isWeak = true)
    (hyields : e.action.yields = true) :
    (Setting.ofJob u flags (before ++ after)).Loosens (before ++ e :: after)
      (.ofJob u (before ++ e :: after)) := by
  have hsmall := JobContext.gathers_ofJob u (before ++ after)
  have hlarge := JobContext.gathers_ofJob u (before ++ e :: after)
  have hverify : e.action ≠ .verify := JobAction.ne_of_yields hyields rfl
  have hmulti : e.action ≠ .multiversion := JobAction.ne_of_yields hyields rfl
  refine ⟨?_, fun id => ?_, fun id h => ?_, fun id h => ?_, fun r hr hhard => ?_⟩
  · refine Bool.eq_iff_iff.mpr (hlarge.verify.trans (Iff.trans ?_ hsmall.verify.symm))
    rw [Job.exists_mem_insert]
    exact or_iff_right hverify
  · refine Bool.eq_iff_iff.mpr ((hlarge.multiversion id).trans (Iff.trans ?_
      (hsmall.multiversion id).symm))
    rw [Job.exists_mem_insert]
    exact or_iff_right fun hnames => hmulti hnames.1
  · exact (hlarge.erase id).mpr (Job.exists_mem_insert.mpr (.inr ((hsmall.erase id).mp h)))
  · exact (hlarge.allowUninstall id).mpr
      (Job.exists_mem_insert.mpr (.inr ((hsmall.allowUninstall id).mp h)))
  · obtain ⟨q, hq, hr⟩ := List.mem_flatMap.mp hr
    obtain ⟨r₀, hr₀, rfl⟩ := List.mem_map.mp hr
    -- a hard rule comes from another entry, whose position may have changed
    have hmem : q.1 ∈ before ++ after := by
      have hq' := List.fst_mem_of_mem_zipIdx hq
      rcases List.mem_append.mp hq' with hq' | hq'
      · exact List.mem_append_left _ hq'
      · rcases List.mem_cons.mp hq' with he | hq'
        · rw [he, hweak] at hhard
          exact absurd hhard (by simp)
        · exact List.mem_append_right _ hq'
    obtain ⟨i, hi⟩ := List.mem_iff_getElem?.mp hmem
    refine ⟨{ r₀ with job := some i, weak := q.1.isWeak }, ?_, hhard, rfl⟩
    refine List.mem_flatMap.mpr ⟨(q.1, i), List.mem_zipIdx_iff_getElem?.mpr hi, ?_⟩
    exact List.mem_map.mpr ⟨r₀, hr₀, rfl⟩

/-- The rules of a job with such an entry can be satisfied if those without it can. -/
theorem Setting.modelsHard_of_isWeak {flags : SolverFlags} (hweak : e.isWeak = true)
    (hyields : e.action.yields = true) {α : Assignment}
    (hα : α.ModelsHard (Setting.ofJob u flags (before ++ after)).rules) :
    ∃ β : Assignment, β.ModelsHard (Setting.ofJob u flags (before ++ e :: after)).rules := by
  have hupdate : e.action ≠ .update := JobAction.ne_of_yields hyields rfl
  have hdist : e.action ≠ .distUpgrade := JobAction.ne_of_yields hyields rfl
  -- the candidates of updates are part of a setting, and neither kind of entry is this one
  have heq : Setting.ofJob u flags (before ++ e :: after) =
      (Setting.ofJob u flags (before ++ after)).withJob (before ++ e :: after)
        (.ofJob u (before ++ e :: after)) := by
    unfold ofJob withJob
    rw [Job.candidatesOf_insert hupdate, Job.candidatesOf_insert hdist]
  rw [heq]
  exact ⟨_, (loosens_of_isWeak flags hweak hyields).modelsHard hα⟩

end DepSolver
