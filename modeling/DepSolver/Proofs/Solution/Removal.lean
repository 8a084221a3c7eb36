import DepSolver.Proofs.Solution.Requests

/-!
# No installed package goes without a cause

An installed package has a rule that it stays or is replaced, and what the job says about it decides
which one: none if the package is to be erased or may go, the candidates of a distribution upgrade
if one speaks of it, and otherwise the package itself with its replacements. So a package that is
gone in the end was asked to go, was allowed to go, was taken by cleaning up, or left its place to a
package of its rule.

Cleaning up cannot spoil the last of these. It erases installed packages only, and what takes the
place of an installed package is an available one.
-/

namespace DepSolver

variable {world : Universe} {flags : SolverFlags} {job : Job}

/-! ## What a distribution upgrade speaks of -/

namespace Scope

variable {u : Universe} {candidates : List PackageId} {id : PackageId} {p : Package}

theorem eq_untouched {scope : Scope} (h : scope.isTouched ≠ true) : scope = .untouched := by
  cases scope with
  | untouched => rfl
  | anywhere | within => exact absurd rfl h

theorem isTouched_merge (a b : Scope) :
    (a.merge b).isTouched = true ↔ a.isTouched = true ∨ b.isTouched = true := by
  cases a <;> cases b <;> simp [merge, isTouched]

theorem isTouched_ofCandidates (hp : u.package? id = some p) :
    (ofCandidates u candidates id).isTouched = true ↔ id ∈ candidates ∨
      ∃ c ∈ candidates, u.isInstalled c = false ∧
        ∃ q, u.package? c = some q ∧ q.name = p.name := by
  unfold ofCandidates
  simp only [List.contains_iff_mem]
  by_cases hid : id ∈ candidates
  · rw [if_pos hid]
    exact iff_of_true rfl (.inl hid)
  · -- otherwise it is touched if the candidates left after filtering are not none
    rw [if_neg hid, or_iff_right hid]
    have hmem : ∀ c, (!u.isInstalled c && (u.package? c).any fun q =>
        (u.package? id).any fun p => p.name == q.name) = true ↔
          u.isInstalled c = false ∧ ∃ q, u.package? c = some q ∧ q.name = p.name := by
      intro c
      rw [hp, Bool.and_eq_true, Bool.not_eq_true', Option.any_eq_true]
      simp only [Option.any_some, beq_iff_eq]
      simp only [eq_comm (a := p.name)]
    split
    · rename_i hnone
      rw [List.isEmpty_iff, List.filter_eq_nil_iff] at hnone
      refine iff_of_false (by simp [isTouched]) fun hex => ?_
      obtain ⟨c, hc, hrest⟩ := hex
      exact hnone c hc ((hmem c).mpr hrest)
    · rename_i hsome
      rw [List.isEmpty_iff, List.filter_eq_nil_iff] at hsome
      simp only [Classical.not_forall, Classical.not_not] at hsome
      obtain ⟨c, hc, hrest⟩ := hsome
      exact iff_of_true rfl ⟨c, hc, (hmem c).mp hrest⟩

theorem isTouched_ofEntries {entries : List (JobFlags × List PackageId)} :
    (ofEntries u entries id).isTouched = true ↔
      ∃ e ∈ entries, (ofCandidates u e.2 id).isTouched = true := by
  have hfold : ∀ s : Scope,
      (entries.foldl (fun s e => s.merge (ofCandidates u e.2 id)) s).isTouched = true ↔
        s.isTouched = true ∨ ∃ e ∈ entries, (ofCandidates u e.2 id).isTouched = true := by
    induction entries with
    | nil => exact fun s => (or_iff_left (by simp)).symm
    | cons e entries ih =>
      intro s
      rw [List.foldl_cons, ih, isTouched_merge, or_assoc]
      simp only [List.mem_cons, exists_eq_or_imp]
  exact (hfold untouched).trans (or_iff_right (by simp [isTouched]))

end Scope

/-- Whether a distribution upgrade speaks of an installed package: it names the package, or an
available one of the same name. -/
def Job.Syncs (world : Universe) (job : Job) (id : PackageId) (p : Package) : Prop :=
  ∃ e ∈ job, e.action = .distUpgrade ∧
    (id ∈ e.target.resolve world ∨ ∃ c ∈ e.target.resolve world, world.isInstalled c = false ∧
      ∃ q, world.package? c = some q ∧ q.name = p.name)

theorem syncs_iff {id : PackageId} {p : Package} (hp : world.package? id = some p) :
    ((Setting.ofJob world flags job).distUpgradeScope id).isTouched = true ↔
      job.Syncs world id p := by
  have hscope : (Setting.ofJob world flags job).distUpgradeScope id =
    .ofEntries world (job.candidatesOf world .distUpgrade) id := rfl
  rw [hscope, Scope.isTouched_ofEntries]
  unfold Job.candidatesOf Job.Syncs
  simp only [List.mem_map, List.mem_filter, beq_iff_eq]
  refine ⟨?_, ?_⟩
  · intro h
    obtain ⟨_, ⟨e, ⟨he, hact⟩, rfl⟩, htouched⟩ := h
    exact ⟨e, he, hact, (Scope.isTouched_ofCandidates hp).mp htouched⟩
  · intro h
    obtain ⟨e, he, hact, hnames⟩ := h
    exact ⟨_, ⟨e, ⟨he, hact⟩, rfl⟩, (Scope.isTouched_ofCandidates hp).mpr hnames⟩

/-! ## What may take the place of an installed package -/

/-- **Whether a package may take the place of another one**: as a package of the same name that is
no step back, or because it obsoletes the other. -/
def Package.Supplants (flags : SolverFlags) (q p : Package) : Prop :=
  (q.name = p.name ∧ q.archCompatible p = true ∧
    (flags.allowDowngrade = true ∨ q.evr.compare p.evr ≠ .lt) ∧
    (flags.allowVendorChange = true ∨ q.vendor = p.vendor)) ∨
  (q.obsoletesPackage p = true ∧ (flags.yumObsoletes = true ∨ q.archCompatible p = true))

namespace Setting

variable {s : Setting} {id c : PackageId} {p : Package}

theorem mem_availableByName {name : String} (h : c ∈ s.availableByName name) :
    s.world.isInstalled c = false ∧ ∃ q, s.world.package? c = some q ∧ q.name = name := by
  obtain ⟨hmem, hnot⟩ := List.mem_filter.mp h
  rw [Bool.not_eq_true'] at hnot
  exact ⟨hnot, (Universe.mem_packagesByName.mp hmem).2⟩

theorem mem_obsoleters (h : c ∈ s.obsoleters p) :
    s.world.isInstalled c = false ∧
      ∃ q, s.world.package? c = some q ∧ q.obsoletesPackage p = true := by
  have hcond := (List.mem_filter.mp h).2
  rw [Bool.and_eq_true, Bool.not_eq_true', Option.any_eq_true] at hcond
  exact hcond

theorem supplants_of_mem_replacements (h : c ∈ s.replacements p) :
    s.world.isInstalled c = false ∧
      ∃ q, s.world.package? c = some q ∧ q.Supplants s.flags p := by
  rcases List.mem_append.mp (mem_replacements.mp h) with h | h
  · -- a package of the same name
    obtain ⟨hmem, hmay⟩ := List.mem_filter.mp h
    obtain ⟨hnot, q, hq, hname⟩ := mem_availableByName hmem
    rw [hq, Option.any_some] at hmay
    unfold mayReplace at hmay
    simp only [Bool.and_eq_true, Bool.or_eq_true, bne_iff_ne, beq_iff_eq] at hmay
    obtain ⟨⟨harch, hevr⟩, hvendor⟩ := hmay
    exact ⟨hnot, q, hq, .inl ⟨hname, harch, hevr, hvendor⟩⟩
  · -- an obsoleter
    obtain ⟨hmem, harch⟩ := List.mem_filter.mp h
    obtain ⟨hnot, q, hq, hobs⟩ := mem_obsoleters hmem
    rw [hq, Option.any_some, Bool.or_eq_true] at harch
    exact ⟨hnot, q, hq, .inr ⟨hobs, harch⟩⟩

/-- What a distribution upgrade offers is available, or stands for the package itself. -/
theorem eq_or_available_of_mem_distUpgradeCandidates {scope : Scope}
    (h : c ∈ s.distUpgradeCandidates id p scope) : c = id ∨ s.world.isInstalled c = false := by
  obtain ⟨x, hx, rfl⟩ := mem_distUpgradeCandidates.mp h
  split
  · -- a copy of the installed package stands for it
    exact .inl rfl
  · refine .inr ?_
    rcases mem_syncing hx with hx | hx
    · exact (mem_availableByName hx).1
    · exact (mem_obsoleters hx).1

/-- Among the rules that keep a package is a hard one that only the package and its replacements
satisfy. -/
theorem exists_updateRule (s : Setting) (id : PackageId) (p : Package) :
    ∃ r ∈ s.keepRules id p, r.weak = false ∧
      ∀ l ∈ r.literals, l = id ∨ l ∈ s.replacements p := by
  unfold keepRules
  dsimp only
  split
  · -- with an update the newer replacements come before the package
    refine ⟨_, List.mem_append_right _ (List.mem_singleton_self _), rfl, fun l hl => ?_⟩
    rcases List.mem_append.mp (Rule.mem_distinct.mp hl) with hl | hl
    · exact .inr (List.mem_filter.mp hl).1
    · exact (List.mem_cons.mp hl).imp_right fun hl => (List.mem_filter.mp hl).1
  · refine ⟨_, List.mem_singleton_self _, rfl, fun l hl => ?_⟩
    exact List.mem_cons.mp (Rule.mem_distinct.mp hl)

theorem mem_rules_of_mem_installedRules (hid : s.world.isInstalled id = true)
    (hp : s.world.package? id = some p) {r : Rule} (hr : r ∈ s.installedRules id p) :
    r ∈ s.rules := by
  rw [rules_eq, requested, List.append_assoc]
  refine List.mem_append_right _ (List.mem_append_left _ ?_)
  refine List.mem_flatMap.mpr ⟨id, Universe.mem_installedIds.mpr hid, ?_⟩
  rw [hp]
  exact hr

/-- **An installed package that an assignment leaves out**, although the hard rules hold. -/
inductive LeftOut (s : Setting) (α : Assignment) (id : PackageId) (p : Package) : Prop where
  | erased (h : s.context.erase.contains id = true)
  | allowed (h : s.context.allowUninstall.contains id = true)
  | synced (h : (s.distUpgradeScope id).isTouched = true) {c : PackageId}
      (hc : c ∈ s.distUpgradeCandidates id p (s.distUpgradeScope id)) (hpos : 0 < c)
      (hα : α c = true)
  | orphaned (h : (s.distUpgradeScope id).isTouched = true)
      (hnone : s.distUpgradeCandidates id p (s.distUpgradeScope id) = [])
      (hdrop : s.flags.keepOrphans = false)
  | replaced (h : s.context.multiversion.contains id = false) {c : PackageId}
      (hc : c ∈ s.replacements p) (hpos : 0 < c) (hα : α c = true)

section

variable {α : Assignment} (hα : α.ModelsHard s.rules) (hid : s.world.isInstalled id = true)
  (hp : s.world.package? id = some p) (hout : α id = false)
include hα hid hp hout

/-- A rule that an installed package must satisfy, when the package is out. -/
theorem exists_other_of_mem_installedRules {r : Rule} (hr : r ∈ s.installedRules id p)
    (hhard : r.weak = false) (hpos : ∀ l ∈ r.literals, 0 < l) :
    ∃ c ∈ r.literals, c ≠ id ∧ 0 < c ∧ α c = true := by
  obtain ⟨c, hc, hholds⟩ :=
    Assignment.satisfies_iff.mp (hα r (mem_rules_of_mem_installedRules hid hp hr) hhard)
  have hcpos := hpos c hc
  rw [Assignment.holds_of_pos hcpos] at hholds
  refine ⟨c, hc, fun he => ?_, hcpos, hholds⟩
  rw [he, hout] at hholds
  exact absurd hholds (by simp)

theorem leftOut_of_stayRules
    (hstay : ∀ r ∈ s.stayRules id p, r ∈ s.installedRules id p) : s.LeftOut α id p := by
  have hidpos : 0 < id := Catalog.pos_of_package? hp
  by_cases hallow : s.context.allowUninstall.contains id = true
  · exact .allowed hallow
  · unfold stayRules at hstay
    dsimp only at hstay
    rw [if_neg hallow] at hstay
    by_cases hmulti : s.context.multiversion.contains id = true
    · -- a package kept in several versions has a rule of its own
      rw [if_pos hmulti] at hstay
      have hr := hstay _ (List.mem_append_right _ (List.mem_singleton_self _))
      obtain ⟨c, hc, hne, -⟩ := exists_other_of_mem_installedRules hα hid hp hout hr rfl
        fun l hl => by
          rw [List.mem_singleton.mp hl]
          exact hidpos
      exact absurd (List.mem_singleton.mp hc) hne
    · rw [if_neg hmulti] at hstay
      obtain ⟨r, hr, hhard, hlits⟩ := s.exists_updateRule id p
      have hpos : ∀ l ∈ r.literals, 0 < l := by
        intro l hl
        rcases hlits l hl with rfl | hl
        · exact hidpos
        · exact Universe.pos_of_isConsidered (isConsidered_of_mem_replacements hl)
      obtain ⟨c, hc, hne, hcpos, hcα⟩ := exists_other_of_mem_installedRules hα hid hp hout
        (hstay r (List.mem_append_right _ hr)) hhard hpos
      have hreplaces := (hlits c hc).resolve_left hne
      exact .replaced (Bool.not_eq_true _ ▸ hmulti) hreplaces hcpos hcα

/-- **Every installed package that is left out has a cause.** -/
theorem leftOut_of_modelsHard : s.LeftOut α id p := by
  have hcons : s.world.isConsidered id = true := Universe.isConsidered_of_isInstalled hid
  by_cases herase : s.context.erase.contains id = true
  · exact .erased herase
  · by_cases htouched : (s.distUpgradeScope id).isTouched = true
    · rcases hcandidates : s.distUpgradeCandidates id p (s.distUpgradeScope id) with _ | ⟨x, xs⟩
      · by_cases horphans : s.flags.keepOrphans = true
        · -- an orphan that is kept has the rules of any other package
          refine leftOut_of_stayRules hα hid hp hout fun r hr => ?_
          unfold installedRules
          dsimp only
          rw [if_neg herase, if_pos htouched, hcandidates, horphans, htouched]
          exact hr
        · exact .orphaned htouched hcandidates (Bool.not_eq_true _ ▸ horphans)
      · have hr : { Rule.make .distUpgrade (x :: xs) with source := some id } ∈
            s.installedRules id p := by
          unfold installedRules
          dsimp only
          rw [if_neg herase, if_pos htouched, hcandidates]
          exact List.mem_singleton_self _
        have hpos : ∀ l ∈ (Rule.make .distUpgrade (x :: xs)).literals, 0 < l := by
          intro l hl
          have hmem := Rule.mem_distinct.mp hl
          rw [← hcandidates] at hmem
          exact Universe.pos_of_isConsidered (isConsidered_of_mem_distUpgradeCandidates hcons hmem)
        obtain ⟨c, hc, -, hcpos, hcα⟩ :=
          exists_other_of_mem_installedRules hα hid hp hout hr rfl hpos
        have hmem := Rule.mem_distinct.mp hc
        rw [← hcandidates] at hmem
        exact .synced htouched hmem hcpos hcα
    · refine leftOut_of_stayRules hα hid hp hout fun r hr => ?_
      unfold installedRules
      dsimp only
      rw [if_neg herase, if_neg htouched, Bool.eq_false_iff.mpr htouched]
      exact hr

end

end Setting

/-! ## What becomes of installed packages -/

theorem mem_present_of_available (h : (solve world flags job).isSolved = true) {id : PackageId}
    (hid : id ∈ (uncleaned world flags job).decisions.present)
    (hnot : world.isInstalled id = false) : id ∈ (solve world flags job).decisions.present := by
  refine (mem_present_or_takenAway h hid).resolve_right fun htaken => ?_
  rw [htaken.installed] at hnot
  exact absurd hnot (by simp)

/-- **Why an installed package is gone.** -/
inductive Removal (world : Universe) (flags : SolverFlags) (job : Job) (id : PackageId)
    (p : Package) : Prop where
  /-- An entry erases it. -/
  | erased {e : JobEntry} (he : e ∈ job) (h : e.Names world .erase id)
  /-- An entry allows it to go. -/
  | allowed {e : JobEntry} (he : e ∈ job) (h : e.Names world .allowUninstall id)
  /-- Nothing needed it after an erasure. -/
  | cleanedUp (h : TakenAway world flags job id)
  /-- A distribution upgrade put a candidate in its place. -/
  | synced (h : job.Syncs world id p) {c : PackageId}
      (hc : c ∈ (Setting.ofJob world flags job).distUpgradeCandidates id p
        ((Setting.ofJob world flags job).distUpgradeScope id))
      (hin : c ∈ (solve world flags job).decisions.present)
  /-- A distribution upgrade found no candidate, and orphans are not kept. -/
  | orphaned (h : job.Syncs world id p)
      (hnone : (Setting.ofJob world flags job).distUpgradeCandidates id p
        ((Setting.ofJob world flags job).distUpgradeScope id) = [])
      (hdrop : flags.keepOrphans = false)
  /-- An available package took its place. -/
  | replaced (h : ¬job.KeepsVersions world id) {c : PackageId} {q : Package}
      (hin : c ∈ (solve world flags job).decisions.present) (hc : world.isInstalled c = false)
      (hq : world.package? c = some q) (hplace : q.Supplants flags p)

/--
**No installed package goes without a cause.**

The search of a solved job satisfies the rule of every installed package, so one that it leaves out
was to be erased, was allowed to go, or has another package of its rule in its place. That package
is available, and so cleaning up does not take it. All other packages that are gone were taken by
cleaning up.
-/
theorem removal_of_not_mem_present (world : Universe) (flags : SolverFlags) (job : Job)
    (h : (solve world flags job).isSolved = true) (id : PackageId)
    (hid : world.isInstalled id = true) (hout : id ∉ (solve world flags job).decisions.present) :
    ∃ p, world.package? id = some p ∧ Removal world flags job id p := by
  obtain ⟨p, hp⟩ := Catalog.mem_ids.mp (Catalog.mem_ids_of_isInstalled hid)
  refine ⟨p, hp, ?_⟩
  by_cases hsearch : id ∈ (uncleaned world flags job).decisions.present
  · exact .cleanedUp ((mem_present_or_takenAway h hsearch).resolve_left hout)
  · -- the search left it out, which its rules allow in few ways
    have hcoherent := coherent_uncleaned h
    have hgathers := JobContext.gathers_ofJob world job
    have habsent : (uncleaned world flags job).decisions.presence id = false := by
      refine Bool.eq_false_iff.mpr fun hpresent => hsearch ?_
      exact hcoherent.mem_present.mpr ⟨Catalog.pos_of_package? hp, hpresent⟩
    have hmodels := (RuleSet.represents_ofList _).modelsHard_iff.mp (modelsHard_of_isSolved h)
    cases Setting.leftOut_of_modelsHard (s := .ofJob world flags job) hmodels hid hp habsent with
    | erased herase =>
        obtain ⟨e, he, hnames, -⟩ := (hgathers.erase id).mp herase
        exact .erased he hnames
    | allowed hallow =>
        obtain ⟨e, he, hnames⟩ := (hgathers.allowUninstall id).mp hallow
        exact .allowed he hnames
    | @synced htouched c hc hpos hα =>
        -- the candidate is not the package, so it is an available one
        have hne : c ≠ id := by
          intro heq
          rw [heq, habsent] at hα
          exact absurd hα (by simp)
        have hnot := (Setting.eq_or_available_of_mem_distUpgradeCandidates hc).resolve_left hne
        have hin := mem_present_of_available h (hcoherent.mem_present.mpr ⟨hpos, hα⟩) hnot
        exact .synced ((syncs_iff hp).mp htouched) hc hin
    | orphaned htouched hnone hdrop =>
        exact .orphaned ((syncs_iff hp).mp htouched) hnone hdrop
    | @replaced hmulti c hc hpos hα =>
        obtain ⟨hnot, q, hq, hplace⟩ := Setting.supplants_of_mem_replacements hc
        have hin := mem_present_of_available h (hcoherent.mem_present.mpr ⟨hpos, hα⟩) hnot
        refine .replaced (fun hkeeps => ?_) hin hnot hq hplace
        have hcontains : (JobContext.ofJob world job).multiversion.contains id = true :=
          multiversion_iff.mpr hkeeps
        have hnotmulti : (JobContext.ofJob world job).multiversion.contains id = false := hmulti
        rw [hcontains] at hnotmulti
        exact absurd hnotmulti (by simp)

/-- The installed package that is in the way of the wanted one is replaced by its update. -/
theorem removal_stubborn :
    3 ∉ (solve stubborn {} [wantedEntry]).decisions.present ∧
      ∃ p, stubborn.package? 3 = some p ∧ Removal stubborn {} [wantedEntry] 3 p := by
  have hsolved : (solve stubborn {} [wantedEntry]).isSolved = true := by decide +kernel
  have hpresent : (solve stubborn {} [wantedEntry]).decisions.present = [1, 2, 5, 6] := by
    decide +kernel
  have hout : 3 ∉ (solve stubborn {} [wantedEntry]).decisions.present := by
    rw [hpresent]
    decide
  have hinstalled : stubborn.isInstalled 3 = true := by decide +kernel
  exact ⟨hout, removal_of_not_mem_present stubborn {} [wantedEntry] hsolved 3 hinstalled hout⟩

end DepSolver
