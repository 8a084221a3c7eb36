import DepSolver.Proofs.Generation.Reach
import DepSolver.Proofs.Goal.Protection
import DepSolver.Proofs.Search.Grounds
import DepSolver.Proofs.Solution.Problems
import DepSolver.Proofs.Solution.Removal

/-!
# What the unneeded packages leave behind

The unneeded packages are the installed ones that nothing wanted leads to. What something wanted
leads to keeps all its requirements when they are removed, and so does every installed package that
is not unneeded itself. What may lose one is a *stray*: a package that came in although nothing
wanted leads to it. It is no unneeded package, because it was not installed before, but the packages
it rests on may be.

Strays have few origins. A package that came in for a request is wanted itself; one that came in for
a requirement or a recommendation is led to from where it was required or recommended. So behind
every stray stands one that took the place of an installed package, or that was required by a
package which is unneeded itself or was erased as left behind. In particular, when a package that a
user wants is updated, its new version is a stray: it is the number of the old one that is marked.
-/

namespace DepSolver

/-! ## Which rules bring packages in -/

/-- Whether a package is a version of an installed one, or obsoletes it. -/
def Universe.Renews (u : Universe) (id old : PackageId) : Prop :=
  u.isInstalled old = true ∧ ∃ q p, u.package? id = some q ∧ u.package? old = some p ∧
    (q.name = p.name ∨ q.obsoletesPackage p = true)

namespace Setting

variable {s : Setting} {id old : PackageId} {p : Package} {r : Rule} {rules : List Rule}

/-- Whether a package is a version of some package, or obsoletes it. -/
def Offers (s : Setting) (p : Package) (id : PackageId) : Prop :=
  ∃ q, s.world.package? id = some q ∧ (q.name = p.name ∨ q.obsoletesPackage p = true)

theorem offers_of_mem_availableByName (h : id ∈ s.availableByName p.name) : s.Offers p id := by
  obtain ⟨-, q, hq, hname⟩ := mem_availableByName h
  exact ⟨q, hq, .inl hname⟩

theorem offers_of_mem_obsoleters (h : id ∈ s.obsoleters p) : s.Offers p id := by
  obtain ⟨-, q, hq, hobsoletes⟩ := mem_obsoleters h
  exact ⟨q, hq, .inr hobsoletes⟩

theorem offers_of_mem_replacements (h : id ∈ s.replacements p) : s.Offers p id := by
  obtain ⟨-, q, hq, ⟨hname, -⟩ | ⟨hobsoletes, -⟩⟩ := supplants_of_mem_replacements h
  · exact ⟨q, hq, .inl hname⟩
  · exact ⟨q, hq, .inr hobsoletes⟩

theorem offers_of_mem_distUpgradeCandidates {scope : Scope}
    (h : id ∈ s.distUpgradeCandidates old p scope) (hne : id ≠ old) : s.Offers p id := by
  obtain ⟨x, hx, hid⟩ := mem_distUpgradeCandidates.mp h
  split at hid
  · exact absurd hid.symm hne
  · subst hid
    exact (mem_syncing hx).elim offers_of_mem_availableByName offers_of_mem_obsoleters

theorem offers_of_mem_multiversionRules {scope : Scope} (hr : r ∈ s.multiversionRules old p scope)
    (hid : id ∈ r.literals) : s.Offers p id := by
  unfold multiversionRules at hr
  dsimp only at hr
  split at hr
  · exact absurd hr List.not_mem_nil
  · rw [List.mem_singleton.mp hr] at hid
    have hmem := Rule.mem_distinct.mp hid
    split at hmem
    · exact offers_of_mem_availableByName (List.mem_filter.mp (mem_of_mem_bestCandidates hmem)).1
    · exact offers_of_mem_availableByName (List.mem_filter.mp (Universe.mem_preferred.mp hmem)).1

theorem offers_of_mem_keepRules (hr : r ∈ s.keepRules old p) (hid : id ∈ r.literals)
    (hne : id ≠ old) : s.Offers p id := by
  unfold keepRules at hr
  dsimp only at hr
  split at hr
  · rcases List.mem_append.mp hr with hr | hr
    · split at hr
      · rw [List.mem_singleton.mp hr] at hid
        have hmem := Rule.mem_distinct.mp hid
        split at hmem
        · exact absurd (List.mem_singleton.mp hmem) hne
        · have hnewer := mem_of_mem_bestCandidates hmem
          exact offers_of_mem_replacements (List.mem_filter.mp hnewer).1
      · exact absurd hr List.not_mem_nil
    · rw [List.mem_singleton.mp hr] at hid
      rcases List.mem_append.mp (Rule.mem_distinct.mp hid) with hmem | hmem
      · exact offers_of_mem_replacements (List.mem_filter.mp hmem).1
      · have holder := (List.mem_cons.mp hmem).resolve_left hne
        exact offers_of_mem_replacements (List.mem_filter.mp holder).1
  · rw [List.mem_singleton.mp hr] at hid
    exact offers_of_mem_replacements
      ((List.mem_cons.mp (Rule.mem_distinct.mp hid)).resolve_left hne)

theorem offers_of_mem_stayRules (hr : r ∈ s.stayRules old p) (hid : id ∈ r.literals)
    (hne : id ≠ old) : s.Offers p id := by
  unfold stayRules at hr
  dsimp only at hr
  rcases List.mem_append.mp hr with hr | hr
  · split at hr
    · exact offers_of_mem_multiversionRules hr hid
    · exact absurd hr List.not_mem_nil
  · split at hr
    · exact absurd hr List.not_mem_nil
    · split at hr
      · rw [List.mem_singleton.mp hr] at hid
        exact absurd (List.mem_singleton.mp (Rule.mem_distinct.mp hid)) hne
      · exact offers_of_mem_keepRules hr hid hne

/-- **The rules of an installed package** offer versions of it, and what obsoletes it. -/
theorem offers_of_mem_installedRules (hr : r ∈ s.installedRules old p) (hid : id ∈ r.literals)
    (hpos : 0 < id) (hold : 0 < old) (hne : id ≠ old) : s.Offers p id := by
  have hcandidates : ∀ c ∈ (if (s.distUpgradeScope old).isTouched
      then s.distUpgradeCandidates old p (s.distUpgradeScope old) else []),
        c ≠ old → s.Offers p c := by
    intro c hc hne
    split at hc
    · exact offers_of_mem_distUpgradeCandidates hc hne
    · exact absurd hc List.not_mem_nil
  unfold installedRules at hr
  dsimp only at hr
  generalize (if (s.distUpgradeScope old).isTouched then _ else _) = candidates at hcandidates hr
  split at hr
  · exact absurd hr List.not_mem_nil
  · split at hr
    · rw [List.mem_singleton.mp hr] at hid
      exact hcandidates id (Rule.mem_distinct.mp hid) hne
    · split at hr
      · -- an orphan is dropped, and nothing comes in for it
        rw [List.mem_singleton.mp hr] at hid
        have hmem : id ∈ [-old] := Rule.mem_distinct.mp hid
        rw [List.mem_singleton.mp hmem] at hpos
        exact absurd hpos (not_pos_neg hold)
      · exact offers_of_mem_stayRules hr hid hne

theorem renews_of_mem_allInstalledRules (hr : r ∈ s.allInstalledRules) (hid : id ∈ r.literals)
    (hpos : 0 < id) (hnew : s.world.isInstalled id = false) :
    ∃ old, s.world.Renews id old := by
  obtain ⟨old, hold, hr⟩ := List.mem_flatMap.mp hr
  have hinstalled := Universe.mem_installedIds.mp hold
  split at hr
  · rename_i p hp
    have hne : id ≠ old := by
      intro heq
      rw [heq, hinstalled] at hnew
      exact absurd hnew (by simp)
    obtain ⟨q, hq, hcase⟩ :=
      offers_of_mem_installedRules hr hid hpos (Catalog.pos_of_package? hp) hne
    exact ⟨old, hinstalled, q, p, hq, hp, hcase⟩
  · exact absurd hr List.not_mem_nil

/-- Two packages that exclude each other bring nothing in. -/
theorem not_mem_exclusion (kind : RuleKind) {a b : PackageId} (ha : 0 < a) (hb : 0 < b)
    (hpos : 0 < id) : id ∉ (Rule.exclusion kind a b).literals := by
  intro hid
  have hmem : id ∈ [-a, -b] := Rule.mem_distinct.mp hid
  rcases List.mem_cons.mp hmem with rfl | hmem
  · exact absurd hpos (not_pos_neg ha)
  · rw [List.mem_singleton.mp hmem] at hpos
    exact absurd hpos (not_pos_neg hb)

theorem exists_requirement_of_mem_dependencyRules {src : PackageId}
    (hr : r ∈ s.dependencyRules src) (hid : id ∈ r.literals) (hpos : 0 < id) :
    0 < src ∧ -src ∈ r.literals ∧ Solution.Requires s.world src id := by
  unfold dependencyRules at hr
  split at hr
  · rename_i p hp
    have hsrc := Catalog.pos_of_package? hp
    have hnot : id ≠ -src := by
      rintro rfl
      exact absurd hpos (not_pos_neg hsrc)
    rcases List.mem_append.mp hr with hr | hr
    · obtain ⟨q, hq, rfl⟩ := List.mem_map.mp hr
      obtain ⟨rel, hrel, rfl⟩ := List.mem_map.mp (List.mem_filter.mp hq).1
      split at hid
      · -- nothing provides what is required
        exact absurd (List.mem_singleton.mp (Rule.mem_distinct.mp hid)) hnot
      · rename_i hsome
        rw [if_neg hsome]
        refine ⟨hsrc, Rule.mem_distinct.mpr (List.mem_cons_self ..), p, hp, rel, hrel, ?_⟩
        exact (List.mem_cons.mp (Rule.mem_distinct.mp hid)).resolve_left hnot
    · obtain ⟨c, -, hr⟩ := List.mem_flatMap.mp hr
      obtain ⟨x, hx, hr⟩ := List.mem_filterMap.mp hr
      have hxpos := pos_of_mem_whatProvides hx
      split at hr
      · rw [← Option.some.inj hr] at hid
        exact absurd (List.mem_singleton.mp (Rule.mem_distinct.mp hid)) hnot
      · split at hr
        · exact absurd hr (by simp)
        · rw [← Option.some.inj hr] at hid
          exact absurd hid (not_mem_exclusion .packageConflict hsrc hxpos hpos)
  · exact absurd hr List.not_mem_nil

/-- **Of the package rules**, those of requirements bring packages in. -/
theorem exists_requirement_of_mem_packageRules (hr : r ∈ s.packageRules rules)
    (hid : id ∈ r.literals) (hpos : 0 < id) :
    ∃ src, 0 < src ∧ -src ∈ r.literals ∧ Solution.Requires s.world src id := by
  have hsameName : ∀ {packages : List (PackageId × Package)}, (∀ a ∈ packages, 0 < a.1) →
      r ∉ s.sameNameRules packages := by
    intro packages
    induction packages with
    | nil => exact fun _ => List.not_mem_nil
    | cons a later ih =>
        intro hall hr
        rcases List.mem_append.mp hr with hr | hr
        · obtain ⟨b, hb, rfl⟩ := List.mem_map.mp hr
          have hbpos := hall b (List.mem_cons_of_mem _ (List.mem_filter.mp hb).1)
          exact not_mem_exclusion .packageSameName (hall a (List.mem_cons_self ..)) hbpos hpos hid
        · exact ih (fun b hb => hall b (List.mem_cons_of_mem _ hb)) hr
  rcases List.mem_append.mp hr with hr | hr
  · rcases List.mem_append.mp hr with hr | hr
    · obtain ⟨src, -, hr⟩ := List.mem_flatMap.mp hr
      exact ⟨src, exists_requirement_of_mem_dependencyRules hr hid hpos⟩
    · have hpositive : ∀ a ∈ groupByName (s.playing rules), 0 < a.1 := fun a ha =>
        pos_of_visited (mem_playing.mp (mem_groupByName.mp ha)).1
      exact absurd hr (hsameName hpositive)
  · obtain ⟨a, ha, hr⟩ := List.mem_flatMap.mp hr
    obtain ⟨o, -, hr⟩ := List.mem_flatMap.mp hr
    obtain ⟨x, hx, rfl⟩ := List.mem_map.mp hr
    have hapos : 0 < a.1 := pos_of_visited (mem_playing.mp ha).1
    have hxpos := Universe.pos_of_isConsidered
      (Universe.mem_packagesByName.mp (List.mem_filter.mp hx).1).1
    exact absurd hid (not_mem_exclusion .packageObsoletes hapos hxpos hpos)

/-- **What brings a package in that was not installed**: a request, an installed package that it
renews, or one that requires it. -/
inductive Brings (s : Setting) (r : Rule) (id : PackageId) : Prop where
  | asked (hclass : r.toClass = .job ∨ r.toClass = .best)
  | renewing (hclass : r.toClass = .update ∨ r.toClass = .distUpgrade) {old : PackageId}
      (hrenews : s.world.Renews id old)
  | serving {src : PackageId} (hpos : 0 < src) (hsrc : -src ∈ r.literals)
      (hrequires : Solution.Requires s.world src id)

theorem brings_of_mem_rules (hr : r ∈ s.rules) (hid : id ∈ r.literals) (hpos : 0 < id)
    (hnew : s.world.isInstalled id = false) : s.Brings r id := by
  rw [rules_eq, requested, List.append_assoc, List.mem_append, List.mem_append] at hr
  rcases hr with hr | hr | hr
  · exact .asked (toClass_of_mem_jobRules hr)
  · obtain ⟨old, hrenews⟩ := renews_of_mem_allInstalledRules hr hid hpos hnew
    obtain ⟨x, -, hx⟩ := List.mem_flatMap.mp hr
    split at hx
    · -- best candidates count as asked for, whoever asks
      have hclass := toClass_of_mem_installedRules hx
      cases hr : r.toClass with
      | job => exact .asked (.inl hr)
      | best => exact .asked (.inr hr)
      | update => exact .renewing (.inl hr) hrenews
      | distUpgrade => exact .renewing (.inr hr) hrenews
      | package =>
          rw [hr] at hclass
          exact absurd rfl (RuleClass.mem_requested_iff.mp hclass)
    · exact absurd hx List.not_mem_nil
  · obtain ⟨src, hsrc, hmem, hrequires⟩ := exists_requirement_of_mem_packageRules hr hid hpos
    exact .serving hsrc hmem hrequires

end Setting

/-! ## What the unneeded packages are needed by -/

namespace Solution

variable {s : Solution} {id x y : PackageId}

/-- The packages present that a user wants or that were asked for. -/
def wanted (s : Solution) : List PackageId :=
  s.decisions.present.filter fun id =>
    s.context.userInstalled.contains id || s.isDecidedByRequest id

/-- Whether something wanted leads to a package, over requirements and recommendations. -/
def IsLed (s : Solution) (id : PackageId) : Prop := s.world.Leads s.leadsTo s.wanted id

/-- **A package that came in** although nothing wanted leads to it. -/
structure Stray (s : Solution) (id : PackageId) : Prop where
  present : id ∈ s.decisions.present
  available : s.world.isInstalled id = false
  unled : ¬s.IsLed id

/-- **Whether a package can do without the unneeded ones**: each of its requirements that some
package present meets is met by one that is not unneeded. -/
def StaysMet (s : Solution) (id : PackageId) : Prop :=
  ∀ p, s.world.package? id = some p → ∀ r ∈ p.requires,
    (∃ y ∈ s.world.whatProvides r, y ∈ s.decisions.present) →
      ∃ y ∈ s.world.whatProvides r, y ∈ s.decisions.present ∧ s.unneeded.contains y = false

theorem contains_unneeded : s.unneeded.contains id = true ↔
    id ∈ s.decisions.present ∧ s.world.isInstalled id = true ∧ ¬s.IsLed id := by
  have hreached : ∀ {x}, 0 < x →
      ((PackageSet.ofList (s.world.reach s.leadsTo s.wanted)).contains x = true ↔ s.IsLed x) := by
    intro x hx
    rw [PackageSet.contains_ofList, Universe.mem_reach]
    exact and_iff_right hx
  unfold unneeded
  dsimp only
  rw [PackageSet.contains_ofList, List.mem_filter, Bool.and_eq_true, Bool.not_eq_true',
    ← Bool.not_eq_true]
  refine ⟨?_, ?_⟩
  · intro h
    exact ⟨h.2.1, h.2.2.1, fun hled => h.2.2.2 ((hreached h.1).mpr hled)⟩
  · intro h
    have hpos := Universe.pos_of_isInstalled h.2.1
    exact ⟨hpos, h.1, h.2.1, fun hin => h.2.2 ((hreached hpos).mp hin)⟩

theorem mem_leadsTo : y ∈ s.leadsTo x ↔ ∃ p, s.world.package? x = some p ∧
    ∃ r ∈ p.requires ++ p.recommends, y ∈ s.world.whatProvides r ∧
      s.decisions.isPresent y = true := by
  unfold leadsTo
  split
  · rename_i p hp
    rw [List.mem_filter, List.mem_flatMap]
    refine ⟨?_, ?_⟩
    · intro h
      obtain ⟨⟨r, hr, hy⟩, hpresent⟩ := h
      exact ⟨p, hp, r, hr, hy, hpresent⟩
    · intro h
      obtain ⟨p', hp', r, hr, hy, hpresent⟩ := h
      obtain rfl := Option.some.inj (hp.symm.trans hp')
      exact ⟨⟨r, hr, hy⟩, hpresent⟩
  · rename_i hnone
    refine ⟨fun h => absurd h List.not_mem_nil, fun h => ?_⟩
    obtain ⟨p, hp, -⟩ := h
    exact absurd (hnone.symm.trans hp) (by simp)

/-- What leads to a package leads to what that package leads to. -/
theorem leads_of_mem_leadsTo {start : List PackageId} (h : s.world.Leads s.leadsTo start x)
    (hy : y ∈ s.leadsTo x) : s.world.Leads s.leadsTo start y := by
  obtain ⟨p, -, r, -, hprovides, -⟩ := mem_leadsTo.mp hy
  exact h.step hy
    (Universe.mem_ids_of_isConsidered (Universe.isConsidered_of_mem_whatProvides hprovides))

/-- **What something wanted leads to can do without the unneeded packages**, since whatever meets
its requirements is led to as well. -/
theorem IsLed.staysMet (h : s.IsLed id) (hcoherent : s.decisions.Coherent) : s.StaysMet id := by
  intro p hp r hr hmet
  obtain ⟨y, hy, hpresent⟩ := hmet
  have hnext : y ∈ s.leadsTo id :=
    mem_leadsTo.mpr ⟨p, hp, r, List.mem_append_left _ hr, hy, (hcoherent.mem_present.mp hpresent).2⟩
  refine ⟨y, hy, hpresent, Bool.eq_false_iff.mpr fun hunneeded => ?_⟩
  exact (contains_unneeded.mp hunneeded).2.2 (leads_of_mem_leadsTo h hnext)

theorem isLed_or_stray (hid : id ∈ s.decisions.present) (hneeded : s.unneeded.contains id = false) :
    s.IsLed id ∨ s.Stray id := by
  by_cases hled : s.IsLed id
  · exact .inl hled
  · refine .inr ⟨hid, Bool.eq_false_iff.mpr fun hinstalled => ?_, hled⟩
    rw [contains_unneeded.mpr ⟨hid, hinstalled, hled⟩] at hneeded
    exact absurd hneeded (by simp)

/-- **What lets a package in** that nothing wanted leads to. -/
inductive LetsIn (s : Solution) (id : PackageId) : Prop where
  /-- It was decided by the rule of an installed package, of which it is a version or which it
  obsoletes. -/
  | renewing {r : Rule} (hrule : s.rule? id = some r)
      (hclass : r.toClass = .update ∨ r.toClass = .distUpgrade) {old : PackageId}
      (hrenews : s.world.Renews id old)
  /-- It is required by a package that is unneeded, or was erased as left behind. -/
  | serving {src : PackageId} (hrequires : Requires s.world src id)
      (hsrc : s.unneeded.contains src = true ∨ s.decisions.reason? src = some .cleanDeps)

/-- Whether a stray that was let in leads to a package. -/
def HasOrigin (s : Solution) (id : PackageId) : Prop :=
  ∃ root, s.Stray root ∧ s.LetsIn root ∧ s.world.Leads s.leadsTo [root] id

theorem HasOrigin.follow (h : s.HasOrigin x) (hy : y ∈ s.leadsTo x) : s.HasOrigin y := by
  obtain ⟨root, hstray, hletsIn, hleads⟩ := h
  exact ⟨root, hstray, hletsIn, leads_of_mem_leadsTo hleads hy⟩

end Solution

/-! ## Where strays come from -/

/-- The reason of a decision is the one it stands with in the queue. -/
theorem Decisions.Coherent.reason?_of_mem {d : Decisions} (h : d.Coherent) {l : Literal}
    {reason : Reason} (hmem : (l, reason) ∈ d.queue.toList) : d.reason? l = some reason := by
  unfold Decisions.reason?
  rw [← Array.find?_toList]
  cases hfind : d.queue.toList.find? fun q => q.1.natAbs == l.natAbs with
  | none => exact absurd (beq_self_eq_true l.natAbs) (List.find?_eq_none.mp hfind _ hmem)
  | some q =>
      have habs := List.find?_some hfind
      have hsame := List.inj_on_of_nodup_map h.nodup (List.mem_of_find?_eq_some hfind) hmem
        (beq_iff_eq.mp habs)
      rw [hsame]
      rfl

theorem Decisions.Coherent.mem_present_of_mem {d : Decisions} (h : d.Coherent) {id : PackageId}
    (hpos : 0 < id) {reason : Reason} (hmem : (id, reason) ∈ d.queue.toList) : id ∈ d.present := by
  have hsatisfied := h.satisfies_of_mem hmem
  exact h.mem_present.mpr ⟨hpos, (Decisions.isPresent_iff_satisfies hpos).mpr hsatisfied⟩

section

variable {world : Universe} {flags : SolverFlags} {job : Job} {id : PackageId}

theorem mem_leadsTo_solve {src : PackageId} {p : Package} {r : Relation}
    (hp : world.package? src = some p) (hr : r ∈ p.requires ++ p.recommends)
    (hid : id ∈ world.whatProvides r)
    (hpresent : (solve world flags job).decisions.isPresent id = true) :
    id ∈ (solve world flags job).leadsTo src := by
  rw [← world_solve world flags job] at hp hid
  exact Solution.mem_leadsTo.mpr ⟨p, hp, r, hr, hid, hpresent⟩

variable (h : (solve world flags job).isSolved = true)
include h

/-- Nothing is decided to be present without a reason. -/
theorem grounded_uncleaned :
    ((Setting.ofJob world flags job).search (uncleaned world flags job).rules).Grounded
      (uncleaned world flags job).decisions.queue.toList := by
  rw [isSolved_solve, Solution.isSolved_iff] at h
  obtain ⟨-, hyields, hrun⟩ := Search.settle_of_problems_eq_nil _ _ _ h
  exact Search.grounded_run (Setting.admits_search hyields) hrun

/-- Cleaning up leaves the rule behind a package that came in as it is. -/
theorem rule?_of_mem_queue (hpos : 0 < id) (hnew : world.isInstalled id = false) {reason : Reason}
    (hmem : (id, reason) ∈ (uncleaned world flags job).decisions.queue.toList) {r : Rule}
    (hr : r ∈ (uncleaned world flags job).rules.toList) (hreason : reason.rule? = some r.id) :
    (solve world flags job).rule? id = some r := by
  have hcoherent := coherent_uncleaned h
  have hclean := cleans_solve h
  have hsame : (solve world flags job).decisions.reason? id = some reason := by
    rcases hclean.same_or_erased hcoherent id hpos with hsame | herased
    · rw [hsame.2, hcoherent.reason?_of_mem hmem]
    · have hinstalled : world.isInstalled id = true := herased.installed
      rw [hnew] at hinstalled
      exact absurd hinstalled.symm (by simp)
  unfold Solution.rule?
  rw [hsame, hclean.rules, Option.bind_some, hreason, Option.bind_some]
  exact RuleSet.get?_id hr

/-- A rule in force brings a package in as a rule that was made does. -/
theorem brings_of_mem_enabled (hpos : 0 < id) (hnew : world.isInstalled id = false) {r : Rule}
    (hr : r ∈ (uncleaned world flags job).rules.enabled) (hid : id ∈ r.literals) :
    (Setting.ofJob world flags job).Brings r id := by
  have hmem := Setting.mem_enabled_ruleSet.mp ((solves_of_isSolved h).1.mem_enabled hr)
  obtain ⟨r', hr', hkey, hlits, -⟩ := (RuleSet.represents_ofList _).origin hmem
  have hclass : r.toClass = r'.toClass := by
    unfold Rule.toClass
    rw [(Rule.key_inj hkey).1]
  rw [hlits] at hid
  cases Setting.brings_of_mem_rules hr' hid hpos hnew with
  | asked hasked => exact .asked (by rw [hclass]; exact hasked)
  | renewing hrenewing hrenews => exact .renewing (by rw [hclass]; exact hrenewing) hrenews
  | serving hsrc hneg hrequires => exact .serving hsrc (by rw [hlits]; exact hneg) hrequires

theorem mem_ids_of_mem_solve (hid : id ∈ (solve world flags job).decisions.present) :
    id ∈ (solve world flags job).world.ids := by
  rw [world_solve]
  exact Universe.mem_ids_of_isConsidered (isConsidered_of_mem_solve h hid)

/-- What a request brought in is wanted. -/
theorem isLed_of_asked (hid : id ∈ (solve world flags job).decisions.present) {r : Rule}
    (hrule : (solve world flags job).rule? id = some r)
    (hclass : r.toClass = .job ∨ r.toClass = .best) : (solve world flags job).IsLed id := by
  have hrequested : (solve world flags job).isDecidedByRequest id = true := by
    unfold Solution.isDecidedByRequest
    rw [hrule, Option.any_some, Bool.or_eq_true, beq_iff_eq, beq_iff_eq]
    exact hclass
  refine .start (List.mem_filter.mpr ⟨hid, ?_⟩) (mem_ids_of_mem_solve h hid)
  rw [hrequested, Bool.or_true]

/-- What was decided before a stray stands behind it, if it leads to it and came in as well. -/
theorem hasOrigin_of_mem_leadsTo {src : PackageId} (hstray : (solve world flags job).Stray id)
    (hsrc : src ∈ (uncleaned world flags job).decisions.present)
    (hnew : world.isInstalled src = false) (hleads : id ∈ (solve world flags job).leadsTo src)
    (ih : (solve world flags job).Stray src → (solve world flags job).HasOrigin src) :
    (solve world flags job).HasOrigin id := by
  refine (ih ⟨mem_present_of_available h hsrc hnew, ?_, fun hled => ?_⟩).follow hleads
  · rw [world_solve]
    exact hnew
  · exact hstray.unled (Solution.leads_of_mem_leadsTo hled hleads)

/-- A stray that an installed package requires serves one that may go, or is gone. -/
theorem letsIn_of_requires {src : PackageId} (hstray : (solve world flags job).Stray id)
    (hsrc : src ∈ (uncleaned world flags job).decisions.present)
    (hinstalled : world.isInstalled src = true)
    (hrequires : Solution.Requires world src id)
    (hleads : id ∈ (solve world flags job).leadsTo src) : (solve world flags job).LetsIn id := by
  have hrequires' : Solution.Requires (solve world flags job).world src id := by
    rw [world_solve]
    exact hrequires
  rcases mem_present_or_takenAway h hsrc with hin | htaken
  · refine .serving hrequires' (.inl ?_)
    refine Solution.contains_unneeded.mpr ⟨hin, by rw [world_solve]; exact hinstalled, ?_⟩
    exact fun hled => hstray.unled (Solution.leads_of_mem_leadsTo hled hleads)
  · exact .serving hrequires' (.inr htaken.reason)

/-- **Whatever backs a stray** lets it in, or leads to it from another stray. -/
theorem hasOrigin_of_backed (hstray : (solve world flags job).Stray id) {reason : Reason}
    (hmem : (id, reason) ∈ (uncleaned world flags job).decisions.queue.toList)
    {before : Literal → Prop}
    (hbefore : ∀ src, 0 < src → before src →
      src ∈ (uncleaned world flags job).decisions.present)
    (hbacked : ((Setting.ofJob world flags job).search (uncleaned world flags job).rules).Backed
      before id reason)
    (ih : ∀ src, 0 < src → before src → (solve world flags job).Stray src →
      (solve world flags job).HasOrigin src) : (solve world flags job).HasOrigin id := by
  have hworld := world_solve world flags job
  obtain ⟨hpos, hpresent⟩ :=
    ((cleans_solve h).coherent (coherent_uncleaned h)).mem_present.mp hstray.present
  have hnew : world.isInstalled id = false := hworld ▸ hstray.available
  have hself : (solve world flags job).LetsIn id → (solve world flags job).HasOrigin id :=
    fun hletsIn => ⟨id, hstray, hletsIn,
      .start (List.mem_singleton_self id) (mem_ids_of_mem_solve h hstray.present)⟩
  cases hbacked with
  | @rule _ r hr hid hreason hneg =>
      have hrule := rule?_of_mem_queue h hpos hnew hmem (RuleSet.mem_enabled_iff.mp hr).1 hreason
      cases brings_of_mem_enabled h hpos hnew hr hid with
      | asked hclass => exact absurd (isLed_of_asked h hstray.present hrule hclass) hstray.unled
      | renewing hclass hrenews =>
          exact hself (.renewing hrule hclass (by rw [hworld]; exact hrenews))
      | @serving src hsrcpos hsrc hrequires =>
          have hfirst : before src := by
            have hfirst := hneg _ hsrc (Int.neg_neg_of_pos hsrcpos)
            rw [Int.neg_neg] at hfirst
            exact hfirst
          have hin := hbefore src hsrcpos hfirst
          have hleads : id ∈ (solve world flags job).leadsTo src := by
            obtain ⟨p, hp, rel, hrel, hprovides⟩ := hrequires
            exact mem_leadsTo_solve hp (List.mem_append_left _ hrel) hprovides hpresent
          cases hinstalled : world.isInstalled src with
          | true => exact hself (letsIn_of_requires h hstray hin hinstalled hrequires hleads)
          | false =>
              exact hasOrigin_of_mem_leadsTo h hstray hin hinstalled hleads (ih src hsrcpos hfirst)
  | @recommended src p r _ hfirst hsrc hp hr hid =>
      have hsrcpos := Catalog.pos_of_package? hp
      have hleads : id ∈ (solve world flags job).leadsTo src :=
        mem_leadsTo_solve hp (List.mem_append_right _ hr) hid hpresent
      exact hasOrigin_of_mem_leadsTo h hstray (hbefore src hsrcpos hfirst) hsrc hleads
        (ih src hsrcpos hfirst)
  | kept hinstalled =>
      have hinstalled : world.isInstalled id = true := hinstalled
      rw [hnew] at hinstalled
      exact absurd hinstalled.symm (by simp)

/-- **Behind every stray stands one that was let in**, and that leads to it. -/
theorem Solution.Stray.hasOrigin (hstray : (solve world flags job).Stray id) :
    (solve world flags job).HasOrigin id := by
  have hcoherent := coherent_uncleaned h
  obtain ⟨reason, hmem⟩ :=
    hcoherent.mem_queue_of_mem_present (mem_uncleaned_present h hstray.present)
  obtain ⟨before, after, hsplit⟩ := List.append_of_mem hmem
  -- by the place in the queue: what backs a decision stands before it
  induction hn : before.length using Nat.strongRecOn generalizing id reason before after with
  | ind n ih =>
      subst hn
      have hpos := (hcoherent.mem_present.mp (mem_uncleaned_present h hstray.present)).1
      have hqueue : ∀ {src : PackageId} {why : Reason}, (src, why) ∈ before →
          (src, why) ∈ (uncleaned world flags job).decisions.queue.toList := by
        intro src why hwhy
        rw [hsplit]
        exact List.mem_append_left _ hwhy
      have hbacked := grounded_uncleaned h before _ after hsplit hpos
      refine hasOrigin_of_backed h hstray hmem ?_ hbacked ?_
      · intro src hsrcpos hbefore
        obtain ⟨why, hwhy⟩ := hbefore
        exact hcoherent.mem_present_of_mem hsrcpos (hqueue hwhy)
      · intro src _ hbefore hsrc
        obtain ⟨why, hwhy⟩ := hbefore
        have hmem' := hqueue hwhy
        obtain ⟨before', after', rfl⟩ := List.append_of_mem hwhy
        have hless : before'.length < (before' ++ (src, why) :: after').length := by
          rw [List.length_append, List.length_cons]
          omega
        have hsplit' : (uncleaned world flags job).decisions.queue.toList =
            before' ++ (src, why) :: (after' ++ (id, reason) :: after) := by
          rw [hsplit, List.append_assoc, List.cons_append]
        exact ih before'.length hless hsrc why hmem' before' _ hsplit' rfl

end

/--
**When the unneeded packages are safe to remove.**

Removing the unneeded packages of a solved job takes no requirement from a package that something
wanted leads to, nor from any installed package that stays. What may lose one is a stray, and behind
every stray stands one that took the place of an installed package, or came in for a package that
may go or is gone. If there is none of these, the unneeded packages are safe to remove.
-/
theorem staysMet_or_stray (world : Universe) (flags : SolverFlags) (job : Job)
    (h : (solve world flags job).isSolved = true) :
    (∀ id ∈ (solve world flags job).decisions.present,
      (solve world flags job).unneeded.contains id = false →
        (solve world flags job).StaysMet id ∨ (solve world flags job).Stray id) ∧
    (∀ id, (solve world flags job).Stray id → (solve world flags job).HasOrigin id) ∧
    ((∀ id, (solve world flags job).Stray id → ¬(solve world flags job).LetsIn id) →
      ∀ id ∈ (solve world flags job).decisions.present,
        (solve world flags job).unneeded.contains id = false →
          (solve world flags job).StaysMet id) := by
  have hcoherent := (cleans_solve h).coherent (coherent_uncleaned h)
  have hcases : ∀ id ∈ (solve world flags job).decisions.present,
      (solve world flags job).unneeded.contains id = false →
        (solve world flags job).StaysMet id ∨ (solve world flags job).Stray id := by
    intro id hid hneeded
    exact (Solution.isLed_or_stray hid hneeded).imp_left fun hled => hled.staysMet hcoherent
  refine ⟨hcases, fun id hstray => hstray.hasOrigin h, fun hnone id hid hneeded => ?_⟩
  refine (hcases id hid hneeded).resolve_right fun hstray => ?_
  obtain ⟨root, hroot, hletsIn, -⟩ := hstray.hasOrigin h
  exact hnone root hroot hletsIn

/-- A user wants `app`, which is updated and requires `lib` before and after. -/
def updated : Universe :=
  .ofCatalog <| .ofSystem
    [{ plainPackage "app" "1" 0 with requires := [Relation.ofName "lib"] },
     plainPackage "lib" "1" 0]
    [{ plainPackage "app" "2" 1 with requires := [Relation.ofName "lib"] }]

/-- The installed `app` is marked as wanted, and everything is updated. -/
def updatingJob : Job :=
  [{ action := .userInstalled, target := .package 1 }, { action := .update, target := .all }]

/-- The new `app` is a stray, let in as the version of the old one, and `lib` is unneeded although
the new `app` requires it and nothing else provides it. -/
theorem staysMet_or_stray_updated :
    (solve updated {} updatingJob).isSolved = true ∧
      (solve updated {} updatingJob).decisions.present = [2, 3] ∧
      (solve updated {} updatingJob).unneeded.contains 2 = true ∧
      (solve updated {} updatingJob).unneeded.contains 3 = false ∧
      ¬(solve updated {} updatingJob).StaysMet 3 ∧
      (solve updated {} updatingJob).Stray 3 ∧
      (solve updated {} updatingJob).HasOrigin 3 := by
  have hsolved : (solve updated {} updatingJob).isSolved = true := by decide +kernel
  have hpresent : (solve updated {} updatingJob).decisions.present = [2, 3] := by decide +kernel
  have hmay : (solve updated {} updatingJob).unneeded.contains 2 = true := by decide +kernel
  have hneeded : (solve updated {} updatingJob).unneeded.contains 3 = false := by decide +kernel
  have hlost : ¬(solve updated {} updatingJob).StaysMet 3 := by
    intro hmet
    have happ : (solve updated {} updatingJob).world.package? 3 =
        some { plainPackage "app" "2" 1 with requires := [Relation.ofName "lib"] } := by
      decide +kernel
    have hproviders : (solve updated {} updatingJob).world.whatProvides (Relation.ofName "lib") =
        [2] := by
      decide +kernel
    obtain ⟨y, hy, -, hstays⟩ := hmet _ happ _ (List.mem_singleton_self _)
      ⟨2, hproviders ▸ List.mem_singleton_self 2, hpresent ▸ List.mem_cons_self ..⟩
    rw [hproviders, List.mem_singleton] at hy
    rw [hy, hmay] at hstays
    exact absurd hstays (by simp)
  obtain ⟨hcases, horigin, -⟩ := staysMet_or_stray updated {} updatingJob hsolved
  have hin : 3 ∈ (solve updated {} updatingJob).decisions.present :=
    hpresent ▸ List.mem_cons_of_mem _ (List.mem_singleton_self 3)
  have hstray := (hcases 3 hin hneeded).resolve_left hlost
  exact ⟨hsolved, hpresent, hmay, hneeded, hlost, hstray, horigin 3 hstray⟩

end DepSolver
