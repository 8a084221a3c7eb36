import DepSolver.Proofs.Generation.PackageRules
import DepSolver.Proofs.Search.Choice
import DepSolver.Solution.Solve

/-!
# Which literals rules are made of

Every literal of a generated rule is about a package that can be seen, and every package that a rule
would bring in is one that the rules know everything about: it was visited when the rules were made.
Together with what is installed and what is recommended this makes a set of literals that a search
over the rules never leaves.
-/

namespace DepSolver

/-- Whether a literal is about a package that can be seen. -/
def Universe.Shows (u : Universe) (l : Literal) : Prop :=
  ∃ id, u.isConsidered id = true ∧ (l = id ∨ l = -id)

namespace Universe.Shows

variable {u : Universe} {l : Literal} {id : PackageId}

theorem pos (h : u.isConsidered id = true) : u.Shows id := ⟨id, h, .inl rfl⟩

theorem neg (h : u.isConsidered id = true) : u.Shows (-id) := ⟨id, h, .inr rfl⟩

theorem isConsidered (h : u.Shows l) (hl : 0 < l) : u.isConsidered l = true := by
  obtain ⟨id, hid, rfl | rfl⟩ := h
  · exact hid
  · have := pos_of_isConsidered hid
    exact absurd (Int.neg_neg_of_pos this) (Int.not_lt.mpr (Int.le_of_lt hl))

end Universe.Shows

/-- Whether a rule is in force and only about packages that can be seen. -/
structure Rule.Fresh (u : Universe) (r : Rule) : Prop where
  enabled : r.disabled = false
  shows : ∀ l ∈ r.literals, u.Shows l

/-- Whether all of some rules are. -/
def AllFresh (u : Universe) (rules : List Rule) : Prop := ∀ r ∈ rules, r.Fresh u

variable {u : Universe}

theorem allFresh_nil : AllFresh u [] := fun _ h => absurd h (by simp)

theorem allFresh_cons {r : Rule} {rules : List Rule} :
    AllFresh u (r :: rules) ↔ r.Fresh u ∧ AllFresh u rules := List.forall_mem_cons

theorem allFresh_append {rules more : List Rule} :
    AllFresh u (rules ++ more) ↔ AllFresh u rules ∧ AllFresh u more := List.forall_mem_append

theorem allFresh_flatMap {β : Type} {items : List β} {f : β → List Rule} :
    AllFresh u (items.flatMap f) ↔ ∀ b ∈ items, AllFresh u (f b) := by
  unfold AllFresh
  simp only [List.mem_flatMap]
  exact ⟨fun h b hb r hr => h r ⟨b, hb, hr⟩, fun h r ⟨b, hb, hr⟩ => h b hb r hr⟩

theorem Rule.fresh_make (kind : RuleKind) {ls : List Literal} (h : ∀ l ∈ ls, u.Shows l) :
    (Rule.make kind ls).Fresh u where
  enabled := rfl
  shows l hl := h l (Rule.mem_distinct.mp hl)

/-- Neither the source of a rule nor its text or weight matters. -/
theorem Rule.Fresh.congr {r r' : Rule} (h : r.Fresh u) (hlits : r'.literals = r.literals)
    (henabled : r'.disabled = r.disabled) : r'.Fresh u :=
  ⟨henabled.trans h.enabled, hlits ▸ h.shows⟩

theorem allFresh_make (kind : RuleKind) {ls : List Literal} (h : ∀ l ∈ ls, u.Shows l) {r : Rule}
    (hlits : r.literals = (Rule.make kind ls).literals) (henabled : r.disabled = false) :
    AllFresh u [r] := by
  intro r' hr'
  rw [List.mem_singleton.mp hr']
  exact (Rule.fresh_make kind h).congr hlits henabled

/-! ## Requests -/

/-- A target stands for packages that can be seen. -/
theorem JobTarget.isConsidered_of_mem_resolve {target : JobTarget} {id : PackageId}
    (h : id ∈ target.resolve u) : u.isConsidered id = true := by
  unfold resolve at h
  cases target with
  | package id' =>
      dsimp only at h
      split at h
      · rename_i hid
        rw [List.mem_singleton.mp h]
        exact hid
      · exact absurd h (by simp)
  | oneOf packages =>
      exact (PackageSet.contains_inter.mp (PackageSet.mem_toList.mp h)).2
  | name relation arch => exact (Universe.mem_packagesByName.mp (List.mem_filter.mp h).1).1
  | provides relation arch =>
      exact Universe.isConsidered_of_mem_whatProvides (List.mem_filter.mp h).1
  | repo wanted =>
      have := (List.mem_filter.mp h).2
      rw [Bool.and_eq_true] at this
      exact this.1
  | all => exact Universe.mem_considered_toList.mp h

namespace Setting

variable {s : Setting}

theorem mem_of_mem_bestCandidates {candidates : List PackageId} {id : PackageId}
    (h : id ∈ s.bestCandidates candidates) : id ∈ candidates := (List.mem_filter.mp h).1

theorem shows_of_mem_resolve {target : JobTarget} {l : Literal}
    (h : l ∈ target.resolve s.world) : s.world.Shows l :=
  .pos (JobTarget.isConsidered_of_mem_resolve h)

theorem allFresh_entryRules (s : Setting) (e : JobEntry) : AllFresh s.world (s.entryRules e) := by
  unfold entryRules
  split
  · unfold installRules
    dsimp only
    split
    · refine allFresh_make (s.missingKind e.target) (fun l hl => ?_) rfl rfl
      exact absurd hl (by simp)
    · rw [allFresh_cons]
      refine ⟨?_, ?_⟩
      · exact (Rule.fresh_make .job fun l hl => shows_of_mem_resolve hl).congr rfl rfl
      · split
        · refine allFresh_make .best (fun l hl => ?_) rfl rfl
          exact shows_of_mem_resolve (mem_of_mem_bestCandidates hl)
        · exact allFresh_nil
  · unfold eraseRules
    intro r hr
    obtain ⟨id, hid, rfl⟩ := List.mem_map.mp hr
    refine (Rule.fresh_make .job fun l hl => ?_).congr rfl rfl
    rw [List.mem_singleton.mp hl]
    exact .neg (JobTarget.isConsidered_of_mem_resolve hid)
  · exact allFresh_nil

theorem allFresh_jobRules (s : Setting) : AllFresh s.world s.jobRules := by
  unfold jobRules
  rw [allFresh_flatMap]
  intro e _ r hr
  obtain ⟨r', hr', rfl⟩ := List.mem_map.mp hr
  exact (allFresh_entryRules s e.1 r' hr').congr rfl rfl

/-! ## Installed packages -/

theorem isConsidered_of_mem_availableByName {name : String} {id : PackageId}
    (h : id ∈ s.availableByName name) : s.world.isConsidered id = true :=
  (Universe.mem_packagesByName.mp (List.mem_filter.mp h).1).1

theorem isConsidered_of_mem_obsoleters {p : Package} {id : PackageId} (h : id ∈ s.obsoleters p) :
    s.world.isConsidered id = true :=
  Universe.mem_considered_toList.mp (List.mem_filter.mp h).1

/-- Putting candidates in order neither adds nor drops any. -/
theorem mem_replacements {p : Package} {c : PackageId} :
    c ∈ s.replacements p ↔ c ∈ s.replacing p := Universe.mem_preferred

theorem mem_distUpgradeCandidates {id c : PackageId} {p : Package} {scope : Scope} :
    c ∈ s.distUpgradeCandidates id p scope ↔
      ∃ x ∈ s.syncing p scope, (if (s.world.package? x).any (·.sameNevra p) then id else x) = c := by
  unfold distUpgradeCandidates
  rw [Rule.mem_distinct, List.mem_map]
  simp only [Universe.mem_preferred]

theorem mem_syncing {c : PackageId} {p : Package} {scope : Scope} (h : c ∈ s.syncing p scope) :
    c ∈ s.availableByName p.name ∨ c ∈ s.obsoleters p := by
  rcases List.mem_append.mp h with h | h
  · exact .inl (List.mem_filter.mp h).1
  · split at h
    · exact .inr h
    · exact absurd h List.not_mem_nil

theorem isConsidered_of_mem_replacing {p : Package} {c : PackageId} (h : c ∈ s.replacing p) :
    s.world.isConsidered c = true := by
  rcases List.mem_append.mp h with h | h
  · exact isConsidered_of_mem_availableByName (List.mem_filter.mp h).1
  · exact isConsidered_of_mem_obsoleters (List.mem_filter.mp h).1

theorem isConsidered_of_mem_replacements {p : Package} {id : PackageId}
    (h : id ∈ s.replacements p) : s.world.isConsidered id = true :=
  isConsidered_of_mem_replacing (mem_replacements.mp h)

theorem isConsidered_of_mem_syncing {p : Package} {scope : Scope} {c : PackageId}
    (h : c ∈ s.syncing p scope) : s.world.isConsidered c = true :=
  (mem_syncing h).elim isConsidered_of_mem_availableByName isConsidered_of_mem_obsoleters

theorem isConsidered_of_mem_distUpgradeCandidates {id c : PackageId} {p : Package} {scope : Scope}
    (hid : s.world.isConsidered id = true) (h : c ∈ s.distUpgradeCandidates id p scope) :
    s.world.isConsidered c = true := by
  obtain ⟨x, hx, rfl⟩ := mem_distUpgradeCandidates.mp h
  split
  · exact hid
  · exact isConsidered_of_mem_syncing hx

theorem isConsidered_of_mem_newerBuilds {p : Package} {scope : Scope} {c : PackageId}
    (h : c ∈ s.newerBuilds p scope) : s.world.isConsidered c = true :=
  isConsidered_of_mem_availableByName (List.mem_filter.mp h).1

theorem allFresh_multiversionRules (id : PackageId) (p : Package) (scope : Scope) :
    AllFresh s.world (s.multiversionRules id p scope) := by
  unfold multiversionRules
  dsimp only
  split
  · exact allFresh_nil
  · refine allFresh_make .update (fun l hl => .pos ?_) rfl rfl
    split at hl
    · exact isConsidered_of_mem_newerBuilds (mem_of_mem_bestCandidates hl)
    · exact isConsidered_of_mem_newerBuilds (Universe.mem_preferred.mp hl)

variable {id : PackageId} {p : Package}

theorem allFresh_keepRules (hid : s.world.isConsidered id = true) :
    AllFresh s.world (s.keepRules id p) := by
  unfold keepRules
  dsimp only
  split
  · rw [allFresh_append]
    refine ⟨?_, ?_⟩
    · split
      · refine allFresh_make .best (fun l hl => .pos ?_) rfl rfl
        split at hl
        · rw [List.mem_singleton.mp hl]
          exact hid
        · exact isConsidered_of_mem_replacements
            (List.mem_filter.mp (mem_of_mem_bestCandidates hl)).1
      · exact allFresh_nil
    · refine allFresh_make .update (fun l hl => .pos ?_) rfl rfl
      rcases List.mem_append.mp hl with hl | hl
      · exact isConsidered_of_mem_replacements (List.mem_filter.mp hl).1
      · rcases List.mem_cons.mp hl with rfl | hl
        · exact hid
        · exact isConsidered_of_mem_replacements (List.mem_filter.mp hl).1
  · refine allFresh_make .update (fun l hl => .pos ?_) rfl rfl
    rcases List.mem_cons.mp hl with rfl | hl
    · exact hid
    · exact isConsidered_of_mem_replacements hl

theorem allFresh_stayRules (hid : s.world.isConsidered id = true) :
    AllFresh s.world (s.stayRules id p) := by
  unfold stayRules
  dsimp only
  rw [allFresh_append]
  refine ⟨?_, ?_⟩
  · split
    · exact allFresh_multiversionRules id p _
    · exact allFresh_nil
  · split
    · exact allFresh_nil
    · split
      · refine allFresh_make .update (fun l hl => ?_) rfl rfl
        rw [List.mem_singleton.mp hl]
        exact .pos hid
      · exact allFresh_keepRules hid

theorem allFresh_installedRules (hid : s.world.isConsidered id = true) :
    AllFresh s.world (s.installedRules id p) := by
  have hcandidates : ∀ c ∈ (if (s.distUpgradeScope id).isTouched
      then s.distUpgradeCandidates id p (s.distUpgradeScope id) else []),
        s.world.isConsidered c = true := by
    intro c hc
    split at hc
    · exact isConsidered_of_mem_distUpgradeCandidates hid hc
    · exact absurd hc (by simp)
  unfold installedRules
  dsimp only
  generalize (if (s.distUpgradeScope id).isTouched then _ else _) = candidates at hcandidates
  split
  · exact allFresh_nil
  · split
    · exact allFresh_make .distUpgrade (fun l hl => .pos (hcandidates l hl)) rfl rfl
    · split
      · refine allFresh_make .distUpgrade (fun l hl => ?_) rfl rfl
        rw [List.mem_singleton.mp hl]
        exact .neg hid
      · exact allFresh_stayRules hid

theorem allFresh_allInstalledRules (s : Setting) : AllFresh s.world s.allInstalledRules := by
  unfold allInstalledRules
  rw [allFresh_flatMap]
  intro id hid
  split
  · exact allFresh_installedRules
      (Universe.isConsidered_of_isInstalled (Universe.mem_installedIds.mp hid))
  · exact allFresh_nil

theorem allFresh_requested (s : Setting) : AllFresh s.world (s.jobRules ++ s.allInstalledRules) :=
  allFresh_append.mpr ⟨s.allFresh_jobRules, s.allFresh_allInstalledRules⟩

/-! ## Packages that come into play -/

variable {rules : List Rule}

/-- Only packages that can be seen come into play. -/
theorem isConsidered_of_visited (h : AllFresh s.world rules) (hid : id ∈ s.visited rules) :
    s.world.isConsidered id = true := by
  have hleads := Universe.mem_reach.mp hid
  induction hleads with
  | start hstart _ =>
      -- installed, or a literal of some rule
      rcases List.mem_append.mp hstart with hid | hid
      · exact Universe.isConsidered_of_isInstalled (Universe.mem_installedIds.mp hid)
      · obtain ⟨r, hr, hl⟩ := List.mem_flatMap.mp hid
        obtain ⟨hl, hpos⟩ := List.mem_filter.mp hl
        exact ((h r hr).shows _ hl).isConsidered (of_decide_eq_true hpos)
  | step _ hnext _ _ =>
      -- a provider of what is required or recommended
      unfold reached at hnext
      split at hnext
      · rcases List.mem_append.mp hnext with hnext | hnext
        · obtain ⟨q, hq, hmem⟩ := List.mem_flatMap.mp hnext
          obtain ⟨r, -, rfl⟩ := List.mem_map.mp (List.mem_filter.mp hq).1
          exact Universe.isConsidered_of_mem_whatProvides hmem
        · split at hnext
          · exact absurd hnext (by simp)
          · obtain ⟨r, -, hmem⟩ := List.mem_flatMap.mp hnext
            exact Universe.isConsidered_of_mem_whatProvides hmem
      · exact absurd hnext (by simp)

theorem visited_of_installed (rules : List Rule) (h : s.world.isInstalled id = true) :
    id ∈ s.visited rules :=
  Universe.mem_reach.mpr (.start (List.mem_append_left _ (Universe.mem_installedIds.mpr h))
    (Catalog.mem_ids_of_isInstalled h))

/-- What a rule would bring in comes into play. -/
theorem visited_of_mem_literals (h : AllFresh s.world rules) {r : Rule} (hr : r ∈ rules)
    (hl : id ∈ r.literals) (hpos : 0 < id) : id ∈ s.visited rules := by
  refine Universe.mem_reach.mpr (.start (List.mem_append_right _ ?_) ?_)
  · exact List.mem_flatMap.mpr ⟨r, hr, List.mem_filter.mpr ⟨hl, decide_eq_true hpos⟩⟩
  · exact Universe.mem_ids_of_isConsidered (((h r hr).shows _ hl).isConsidered hpos)

/-- So does what a package in play requires. -/
theorem visited_of_requires {q : Relation × List PackageId} {x : PackageId}
    (hid : id ∈ s.visited rules) (hp : s.world.package? id = some p)
    (hq : q ∈ s.liveRequirements id p) (hx : x ∈ q.2) : x ∈ s.visited rules := by
  refine Universe.mem_reach.mpr ((Universe.mem_reach.mp hid).step ?_ ?_)
  · unfold reached
    rw [hp]
    exact List.mem_append_left _ (List.mem_flatMap.mpr ⟨q, hq, hx⟩)
  · obtain ⟨r, -, rfl⟩ := List.mem_map.mp (List.mem_filter.mp hq).1
    exact Universe.mem_ids_of_isConsidered (Universe.isConsidered_of_mem_whatProvides hx)

/-- And what it recommends, if recommendations are followed. -/
theorem visited_of_recommends {r : Relation} {x : PackageId} (hid : id ∈ s.visited rules)
    (hp : s.world.package? id = some p) (hflag : s.flags.ignoreRecommended = false)
    (hr : r ∈ p.recommends) (hx : x ∈ s.world.whatProvides r) : x ∈ s.visited rules := by
  refine Universe.mem_reach.mpr ((Universe.mem_reach.mp hid).step ?_ ?_)
  · unfold reached
    rw [hp, hflag]
    exact List.mem_append_right _ (List.mem_flatMap.mpr ⟨r, hr, hx⟩)
  · exact Universe.mem_ids_of_isConsidered (Universe.isConsidered_of_mem_whatProvides hx)

/-! ## Package rules -/

/-- Whether a literal is about a package that can be seen, one in play if it is to be present. -/
def Stays (s : Setting) (rules : List Rule) (l : Literal) : Prop :=
  s.world.Shows l ∧ (0 < l → l ∈ s.visited rules)

theorem stays_neg (h : s.world.isConsidered id = true) : s.Stays rules (-id) := by
  refine ⟨.neg h, fun hpos => ?_⟩
  have := Universe.pos_of_isConsidered h
  exact absurd (Int.neg_neg_of_pos this) (Int.not_lt.mpr (Int.le_of_lt hpos))

theorem stays_of_visited (h : AllFresh s.world rules) (hid : id ∈ s.visited rules) :
    s.Stays rules id := ⟨.pos (isConsidered_of_visited h hid), fun _ => hid⟩

/-- What a package rule is like, whatever it is about. -/
structure IsPackageRule (s : Setting) (rules : List Rule) (r : Rule) : Prop where
  enabled : r.disabled = false
  hard : r.weak = false
  stays : ∀ l ∈ r.literals, s.Stays rules l

theorem isPackageRule_make (kind : RuleKind) (ls : List Literal) {r : Rule}
    (h : ∀ l ∈ ls, s.Stays rules l) (hlits : r.literals = (Rule.make kind ls).literals)
    (henabled : r.disabled = false) (hhard : r.weak = false) : s.IsPackageRule rules r := by
  refine ⟨henabled, hhard, fun l hl => h l ?_⟩
  rw [hlits] at hl
  exact Rule.mem_distinct.mp hl

theorem isPackageRule_exclusion (kind : RuleKind) {a b : PackageId} {r : Rule}
    (ha : s.world.isConsidered a = true) (hb : s.world.isConsidered b = true)
    (hlits : r.literals = (Rule.exclusion kind a b).literals) (henabled : r.disabled = false)
    (hhard : r.weak = false) : s.IsPackageRule rules r := by
  refine isPackageRule_make kind [-a, -b] (fun l hl => ?_) hlits henabled hhard
  rcases List.mem_cons.mp hl with rfl | hl
  · exact stays_neg ha
  · rw [List.mem_singleton.mp hl]
    exact stays_neg hb

theorem isPackageRule_of_mem_requirementRules (h : AllFresh s.world rules)
    (hid : id ∈ s.visited rules) (hp : s.world.package? id = some p) {r : Rule}
    (hr : r ∈ s.requirementRules id p) : s.IsPackageRule rules r := by
  have hneg : s.Stays rules (-id) := stays_neg (isConsidered_of_visited h hid)
  obtain ⟨q, hq, rfl⟩ := List.mem_map.mp hr
  split
  · refine isPackageRule_make .packageNothingProvides [-id] (fun l hl => ?_)
      rfl rfl rfl
    rw [List.mem_singleton.mp hl]
    exact hneg
  · refine isPackageRule_make .packageRequires (-id :: q.2) (fun l hl => ?_)
      rfl rfl rfl
    rcases List.mem_cons.mp hl with rfl | hl
    · exact hneg
    · exact stays_of_visited h (visited_of_requires hid hp hq hl)

theorem isPackageRule_of_mem_conflictRules (h : AllFresh s.world rules)
    (hid : id ∈ s.visited rules) {r : Rule} (hr : r ∈ s.conflictRules id p) :
    s.IsPackageRule rules r := by
  have hcons := isConsidered_of_visited h hid
  obtain ⟨c, -, hr⟩ := List.mem_flatMap.mp hr
  obtain ⟨x, hx, hr⟩ := List.mem_filterMap.mp hr
  split at hr
  · rw [← Option.some.inj hr]
    refine isPackageRule_make .packageSelfConflict [-id] (fun l hl => ?_)
      rfl rfl rfl
    rw [List.mem_singleton.mp hl]
    exact stays_neg hcons
  · split at hr
    · exact absurd hr (by simp)
    · rw [← Option.some.inj hr]
      exact isPackageRule_exclusion .packageConflict hcons
        (Universe.isConsidered_of_mem_whatProvides hx) rfl rfl rfl

theorem isPackageRule_of_mem_sameNameRules : ∀ {packages : List (PackageId × Package)},
    (∀ a ∈ packages, s.world.isConsidered a.1 = true) →
      ∀ r ∈ s.sameNameRules packages, s.IsPackageRule rules r
  | [], _, r, hr => absurd hr (by simp [sameNameRules])
  | a :: later, h, r, hr => by
      rcases List.mem_append.mp hr with hr | hr
      · obtain ⟨b, hb, rfl⟩ := List.mem_map.mp hr
        exact isPackageRule_exclusion .packageSameName (h a (List.mem_cons_self ..))
          (h b (List.mem_cons_of_mem _ (List.mem_filter.mp hb).1)) rfl rfl rfl
      · exact isPackageRule_of_mem_sameNameRules (fun b hb => h b (List.mem_cons_of_mem _ hb)) r hr

theorem isPackageRule_of_mem_obsoletesRules (h : AllFresh s.world rules)
    (hid : id ∈ s.visited rules) {visited : PackageSet} {r : Rule}
    (hr : r ∈ s.obsoletesRules visited id p) : s.IsPackageRule rules r := by
  obtain ⟨o, -, hr⟩ := List.mem_flatMap.mp hr
  obtain ⟨x, hx, rfl⟩ := List.mem_map.mp hr
  exact isPackageRule_exclusion .packageObsoletes (isConsidered_of_visited h hid)
    (Universe.mem_packagesByName.mp (List.mem_filter.mp hx).1).1 rfl rfl rfl

theorem isPackageRule_of_mem_packageRules (h : AllFresh s.world rules) {r : Rule}
    (hr : r ∈ s.packageRules rules) : s.IsPackageRule rules r := by
  rcases List.mem_append.mp hr with hr | hr
  · rcases List.mem_append.mp hr with hr | hr
    · obtain ⟨id, hid, hr⟩ := List.mem_flatMap.mp hr
      unfold dependencyRules at hr
      split at hr
      · rename_i p hp
        rcases List.mem_append.mp hr with hr | hr
        · exact isPackageRule_of_mem_requirementRules h hid hp hr
        · exact isPackageRule_of_mem_conflictRules h hid hr
      · exact absurd hr (by simp)
    · refine isPackageRule_of_mem_sameNameRules (fun a ha => ?_) r hr
      exact isConsidered_of_visited h (mem_playing.mp (mem_groupByName.mp ha)).1
  · obtain ⟨a, ha, hr⟩ := List.mem_flatMap.mp hr
    exact isPackageRule_of_mem_obsoletesRules h (mem_playing.mp ha).1 hr

/-! ## All rules -/

/-- The rules made before any package rule. -/
def requested (s : Setting) : List Rule := s.jobRules ++ s.allInstalledRules

theorem rules_eq (s : Setting) : s.rules = s.requested ++ s.packageRules s.requested := rfl

theorem allFresh_rules (s : Setting) : AllFresh s.world s.rules := by
  rw [rules_eq, allFresh_append]
  refine ⟨s.allFresh_requested, fun r hr => ?_⟩
  have := isPackageRule_of_mem_packageRules s.allFresh_requested hr
  exact ⟨this.enabled, fun l hl => (this.stays l hl).1⟩

theorem stays_of_mem_rules {r : Rule} (hr : r ∈ s.rules) {l : Literal} (hl : l ∈ r.literals) :
    s.Stays s.requested l := by
  rw [rules_eq, List.mem_append] at hr
  rcases hr with hr | hr
  · exact ⟨(s.allFresh_requested r hr).shows l hl,
      fun hpos => visited_of_mem_literals s.allFresh_requested hr hl hpos⟩
  · exact (isPackageRule_of_mem_packageRules s.allFresh_requested hr).stays l hl

theorem hard_of_mem_packageRules {r : Rule} (h : AllFresh s.world rules)
    (hr : r ∈ s.packageRules rules) : r.weak = false :=
  (isPackageRule_of_mem_packageRules h hr).hard

/-- Whatever satisfies the hard rules satisfies all rules of packages. -/
theorem consistent_of_modelsHard {α : Assignment} (hα : α.ModelsHard s.rules) :
    s.Consistent (· ∈ s.visited s.requested) α := by
  refine models_packageRules.mp fun r hr => hα r ?_ ?_
  · rw [rules_eq]
    exact List.mem_append_right _ hr
  · exact hard_of_mem_packageRules s.allFresh_requested hr

/-- **A search over generated rules never leaves what is in play**, whichever of them are in
force. -/
theorem admits_stays {s : Setting} {t : RuleSet}
    (ht : ∀ r ∈ t.enabled, ∃ r' ∈ s.rules, r.literals = r'.literals) :
    (s.search t).Admits (s.Stays s.requested) where
  knows := by
    intro l h
    obtain ⟨id, hid, hl⟩ := h.1
    have hknows := Search.knows_of_isConsidered (s := s.search t) hid
    rcases hl with hl | hl
    · rw [hl]
      exact hknows
    · rw [hl]
      exact hknows.neg
  rules := by
    intro r hr l hl
    obtain ⟨r', hr', heq⟩ := ht r hr
    rw [heq] at hl
    exact stays_of_mem_rules hr' hl
  installed := by
    intro id h
    have hcons : s.world.isConsidered id = true := Universe.isConsidered_of_isInstalled h
    exact ⟨⟨.pos hcons, fun _ => visited_of_installed s.requested h⟩, stays_neg hcons⟩
  recommended := by
    intro hflag id p hK hp r hr q hq
    have hcons : s.world.isConsidered q = true := Universe.isConsidered_of_mem_whatProvides hq
    have hid : id ∈ s.visited s.requested := hK.2 (Catalog.pos_of_package? hp)
    exact ⟨⟨.pos hcons, fun _ => visited_of_recommends hid hp hflag hr hq⟩, stays_neg hcons⟩

end Setting

end DepSolver
