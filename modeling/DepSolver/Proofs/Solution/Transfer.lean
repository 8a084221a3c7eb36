import Mathlib.Data.List.Forall2
import DepSolver.Proofs.Generation.Demands
import DepSolver.Proofs.Solution.Removal
import DepSolver.Proofs.Universe.Renumbering

/-!
# Verdicts do not depend on numbers

A job may be put to the same packages under other numbers. Rules are then made in another order,
searches try and blame other packages, and what is chosen may differ. But every hard rule has one in
the other setting that asks for the same packages, so that an assignment which satisfies the hard
rules of one setting is translated to one for the other, and both come to the same verdict.
-/

namespace DepSolver

/-! ## Entries and scopes under other numbers -/

/-- Whether an entry asks for the same packages as another under other numbers, and in the same
way as far as rules go. -/
structure JobEntry.Corresponds (u v : Universe) (σ : PackageId → PackageId) (e e' : JobEntry) :
    Prop where
  action : e'.action = e.action
  candidates : u.Corresponds v σ (e.target.resolve u) (e'.target.resolve v)
  isWeak : e'.isWeak = e.isWeak
  forcebest : e'.flags.contains .forcebest = e.flags.contains .forcebest

/-- Whether two jobs correspond entry by entry. -/
def Job.Corresponds (u v : Universe) (σ : PackageId → PackageId) (job job' : Job) : Prop :=
  List.Forall₂ (JobEntry.Corresponds u v σ) job job'

/-- What holds of elements that belong together holds of some on one side if it does on the
other. -/
theorem exists_iff_of_forall₂ {α β : Type} {R : α → β → Prop} {P : α → Prop} {Q : β → Prop}
    {xs : List α} {ys : List β} (h : List.Forall₂ R xs ys) (hPQ : ∀ x y, R x y → (Q y ↔ P x)) :
    (∃ y ∈ ys, Q y) ↔ ∃ x ∈ xs, P x := by
  induction h with
  | nil => simp
  | cons hxy _ ih => simp only [List.mem_cons, exists_eq_or_imp, hPQ _ _ hxy, ih]

/-- At a position where one job has an entry, the other has one that corresponds to it. -/
theorem Job.Corresponds.exists_entry {u v : Universe} {σ : PackageId → PackageId} {job job' : Job}
    (h : job.Corresponds u v σ job') {i : Nat} {e : JobEntry} (he : job[i]? = some e) :
    ∃ e', job'[i]? = some e' ∧ e.Corresponds u v σ e' := by
  obtain ⟨hi, rfl⟩ := List.getElem?_eq_some_iff.mp he
  have hi' : i < job'.length := h.length_eq ▸ hi
  exact ⟨job'[i], List.getElem?_eq_getElem hi', h.get hi hi'⟩

namespace Scope

/-- Whether two scopes reach the same packages. -/
inductive Corresponds (u : Universe) (σ : PackageId → PackageId) : Scope → Scope → Prop where
  | untouched : Corresponds u σ untouched untouched
  | anywhere : Corresponds u σ anywhere anywhere
  | within {a b : PackageSet} : (∀ id ∈ u.ids, b.contains (σ id) = a.contains id) →
      Corresponds u σ (within a) (within b)

variable {u v : Universe} {σ τ : PackageId → PackageId} {a b a' b' : Scope} {id : PackageId}

namespace Corresponds

theorem isTouched_eq (h : Corresponds u σ a b) : b.isTouched = a.isTouched := by
  cases h <;> rfl

theorem beq_anywhere (h : Corresponds u σ a b) : (b == .anywhere) = (a == .anywhere) := by
  cases h <;> rfl

theorem allows_eq (h : Corresponds u σ a b) (hid : id ∈ u.ids) :
    b.allows (σ id) = a.allows id := by
  cases h with
  | untouched => rfl
  | anywhere => rfl
  | within hab => exact hab id hid

theorem merge (h : Corresponds u σ a b) (h' : Corresponds u σ a' b') :
    Corresponds u σ (a.merge a') (b.merge b') := by
  cases h with
  | untouched => cases h' with
    | untouched => exact .untouched
    | anywhere => exact .anywhere
    | within hab' => exact .within hab'
  | anywhere => cases h' <;> exact .anywhere
  | within hab => cases h' with
    | untouched => exact .within hab
    | anywhere => exact .anywhere
    | within hab' =>
      refine .within fun id hid => ?_
      rw [Bool.eq_iff_iff, PackageSet.contains_union, PackageSet.contains_union, hab id hid,
        hab' id hid]

end Corresponds

theorem corresponds_ofCandidates (h : u.Renumbers v σ τ) {xs ys : List PackageId}
    (hc : u.Corresponds v σ xs ys) (hid : id ∈ u.ids) :
    Corresponds u σ (ofCandidates u xs id) (ofCandidates v ys (σ id)) := by
  have havailable := hc.filter
    (P := fun c => !u.isInstalled c && (u.package? c).any fun q =>
      (u.package? id).any fun p => p.name == q.name)
    (Q := fun c => !v.isInstalled c && (v.package? c).any fun q =>
      (v.package? (σ id)).any fun p => p.name == q.name)
    fun c hcu => by rw [h.isInstalled hcu, h.package c hcu, h.package id hid]
  unfold ofCandidates
  dsimp only
  rw [hc.contains_eq hid, havailable.isEmpty_eq h]
  split
  · exact .anywhere
  · split
    · exact .untouched
    · refine .within fun c hcu => ?_
      have hpos : 0 < σ c ↔ 0 < c :=
        iff_of_true (Universe.pos_of_mem_ids (h.mapsTo c hcu)) (Universe.pos_of_mem_ids hcu)
      rw [Bool.eq_iff_iff, PackageSet.contains_ofList, PackageSet.contains_ofList, hpos,
        havailable.mem_iff c hcu]

/-- Whether two lists of entries with their candidates belong together. -/
abbrev EntriesCorrespond (u v : Universe) (σ : PackageId → PackageId) :
    List (JobFlags × List PackageId) → List (JobFlags × List PackageId) → Prop :=
  List.Forall₂ fun e e' => e'.1.contains .forcebest = e.1.contains .forcebest ∧
    u.Corresponds v σ e.2 e'.2

theorem corresponds_ofEntries (h : u.Renumbers v σ τ) {xs ys : List (JobFlags × List PackageId)}
    (hentries : EntriesCorrespond u v σ xs ys) (hid : id ∈ u.ids) :
    Corresponds u σ (ofEntries u xs id) (ofEntries v ys (σ id)) := by
  have hfold : ∀ a b : Scope, Corresponds u σ a b →
      Corresponds u σ (xs.foldl (fun s e => s.merge (ofCandidates u e.2 id)) a)
        (ys.foldl (fun s e => s.merge (ofCandidates v e.2 (σ id))) b) := by
    induction hentries with
    | nil => exact fun _ _ hab => hab
    | cons hxy _ ih =>
      exact fun a b hab => ih _ _ (hab.merge (corresponds_ofCandidates h hxy.2 hid))
  exact hfold untouched untouched .untouched

end Scope

/-- The candidates of corresponding jobs belong together. -/
theorem Job.Corresponds.candidatesOf {u v : Universe} {σ : PackageId → PackageId} {job job' : Job}
    (h : job.Corresponds u v σ job') (action : JobAction) :
    Scope.EntriesCorrespond u v σ (job.candidatesOf u action) (job'.candidatesOf v action) := by
  unfold Job.candidatesOf
  induction h with
  | nil => exact .nil
  | cons hxy _ ih =>
    rw [List.filter_cons, List.filter_cons, hxy.action]
    split
    · exact .cons ⟨hxy.forcebest, hxy.candidates⟩ ih
    · exact ih

/-! ## Settings under other numbers -/

namespace Setting

/-- **Whether two settings are the same but for the numbers of packages.** -/
structure Renumbers (s t : Setting) (σ τ : PackageId → PackageId) : Prop where
  world : s.world.Renumbers t.world σ τ
  flags : t.flags = s.flags
  job : s.job.Corresponds s.world t.world σ t.job
  verify : t.context.verify = s.context.verify
  multiversion : ∀ id ∈ s.world.ids,
    t.context.multiversion.contains (σ id) = s.context.multiversion.contains id
  allowUninstall : ∀ id ∈ s.world.ids,
    t.context.allowUninstall.contains (σ id) = s.context.allowUninstall.contains id
  erase : ∀ id ∈ s.world.ids, t.context.erase.contains (σ id) = s.context.erase.contains id
  updates : Scope.EntriesCorrespond s.world t.world σ s.updates t.updates
  distUpgrades : Scope.EntriesCorrespond s.world t.world σ s.distUpgrades t.distUpgrades

/-- Corresponding jobs have corresponding settings. -/
theorem renumbers_ofJob {u v : Universe} {σ τ : PackageId → PackageId} (h : u.Renumbers v σ τ)
    (flags : SolverFlags) {job job' : Job} (hjob : job.Corresponds u v σ job') :
    (ofJob u flags job).Renumbers (ofJob v flags job') σ τ := by
  have hgathers := JobContext.gathers_ofJob u job
  have hgathers' := JobContext.gathers_ofJob v job'
  have hnames : ∀ action, ∀ id ∈ u.ids, ∀ e e' : JobEntry, e.Corresponds u v σ e' →
      (e'.Names v action (σ id) ↔ e.Names u action id) := by
    intro action id hid e e' he
    unfold JobEntry.Names
    rw [he.action, he.candidates.mem_iff id hid]
  refine ⟨h, rfl, hjob, ?_, fun id hid => ?_, fun id hid => ?_, fun id hid => ?_,
    hjob.candidatesOf .update, hjob.candidatesOf .distUpgrade⟩
  · refine Bool.eq_iff_iff.mpr (hgathers'.verify.trans (Iff.trans ?_ hgathers.verify.symm))
    exact exists_iff_of_forall₂ hjob fun e e' he => by rw [he.action]
  · refine Bool.eq_iff_iff.mpr ((hgathers'.multiversion _).trans
      (Iff.trans ?_ (hgathers.multiversion id).symm))
    exact exists_iff_of_forall₂ hjob (hnames .multiversion id hid)
  · refine Bool.eq_iff_iff.mpr ((hgathers'.allowUninstall _).trans
      (Iff.trans ?_ (hgathers.allowUninstall id).symm))
    exact exists_iff_of_forall₂ hjob (hnames .allowUninstall id hid)
  · refine Bool.eq_iff_iff.mpr ((hgathers'.erase _).trans (Iff.trans ?_ (hgathers.erase id).symm))
    refine exists_iff_of_forall₂ hjob fun e e' he => ?_
    rw [hnames .erase id hid e e' he, h.isInstalled hid]

end Setting

/-! ## Rules that ask for the same -/

/-- Whether a literal is about the same package as another, and says the same of it. -/
inductive Universe.Renames (u : Universe) (σ : PackageId → PackageId) : Literal → Literal → Prop
    where
  | pos {id : PackageId} : id ∈ u.ids → Renames u σ id (σ id)
  | neg {id : PackageId} : id ∈ u.ids → Renames u σ (-id) (-σ id)

/-- Whether every hard rule of a list has one in another list that offers nothing more, under other
numbers. -/
def Covered (u : Universe) (σ : PackageId → PackageId) (rules rules' : List Rule) : Prop :=
  ∀ r ∈ rules, r.weak = false → ∃ r' ∈ rules', r'.weak = false ∧
    ∀ l' ∈ r'.literals, ∃ l ∈ r.literals, u.Renames σ l l'

section Covered

variable {u v : Universe} {σ τ : PackageId → PackageId} {rules rules' more more' : List Rule}

theorem covered_nil : Covered u σ [] rules' := fun _ h => absurd h (by simp)

theorem covered_of_weak (h : ∀ r ∈ rules, r.weak = true) : Covered u σ rules rules' := by
  intro r hr hhard
  rw [h r hr] at hhard
  exact absurd hhard (by simp)

theorem Covered.mono (h : Covered u σ rules rules') (hsub : ∀ r ∈ rules', r ∈ more') :
    Covered u σ rules more' := by
  intro r hr hhard
  obtain ⟨r', hr', hrest⟩ := h r hr hhard
  exact ⟨r', hsub r' hr', hrest⟩

theorem Covered.append (h : Covered u σ rules rules') (h' : Covered u σ more more') :
    Covered u σ (rules ++ more) (rules' ++ more') := by
  intro r hr
  rcases List.mem_append.mp hr with hr | hr
  · exact h.mono (fun _ => List.mem_append_left _) r hr
  · exact h'.mono (fun _ => List.mem_append_right _) r hr

theorem Covered.cons {r r' : Rule} (h : Covered u σ [r] [r']) (h' : Covered u σ rules rules') :
    Covered u σ (r :: rules) (r' :: rules') := h.append h'

/-- Rules made from literals about the same packages. -/
theorem covered_singleton {ls ls' : List Literal} {r r' : Rule}
    (hr : r.literals = Rule.distinct ls) (hr' : r'.literals = Rule.distinct ls')
    (hhard : r'.weak = false) (h : ∀ l' ∈ ls', ∃ l ∈ ls, u.Renames σ l l') :
    Covered u σ [r] [r'] := by
  intro r₀ hr₀ _
  rw [List.mem_singleton.mp hr₀]
  refine ⟨r', List.mem_singleton_self r', hhard, fun l' hl' => ?_⟩
  rw [hr', Rule.mem_distinct] at hl'
  obtain ⟨l, hl, hrename⟩ := h l' hl'
  refine ⟨l, ?_, hrename⟩
  rw [hr, Rule.mem_distinct]
  exact hl

/-- A rule of candidates offers the same candidates. -/
theorem Universe.Corresponds.renames (h : u.Renumbers v σ τ) {xs ys : List PackageId}
    (hc : u.Corresponds v σ xs ys) : ∀ l' ∈ ys, ∃ l ∈ xs, u.Renames σ l l' := by
  intro l' hl'
  obtain ⟨x, hx, rfl⟩ := hc.exists_mem h hl'
  exact ⟨x, hx, .pos (hc.left x hx)⟩

end Covered

/-- Rules for further versions are weak. -/
theorem Setting.weak_of_mem_multiversionRules {s : Setting} {id : PackageId} {p : Package}
    {scope : Scope} {r : Rule} (hr : r ∈ s.multiversionRules id p scope) : r.weak = true := by
  unfold multiversionRules at hr
  dsimp only at hr
  split at hr
  · exact absurd hr (by simp)
  · rw [List.mem_singleton.mp hr]

/-- The rules of an entry are hard until they are marked. -/
theorem Setting.hard_of_mem_entryRules {s : Setting} {e : JobEntry} {r : Rule}
    (hr : r ∈ s.entryRules e) : r.weak = false := by
  unfold entryRules at hr
  split at hr
  · unfold installRules at hr
    dsimp only at hr
    split at hr
    · rw [List.mem_singleton.mp hr]
      rfl
    · rcases List.mem_cons.mp hr with rfl | hr
      · rfl
      · split at hr
        · rw [List.mem_singleton.mp hr]
          rfl
        · exact absurd hr (by simp)
  · obtain ⟨id, -, rfl⟩ := List.mem_map.mp hr
    rfl
  · exact absurd hr (by simp)

/-- Some candidates are not among the best if these are fewer. -/
theorem Setting.length_bestCandidates_lt {s : Setting} {candidates : List PackageId} :
    (s.bestCandidates candidates).length < candidates.length ↔
      ∃ c ∈ candidates, c ∉ s.bestCandidates candidates := by
  unfold Setting.bestCandidates Universe.bestCandidates
  rw [List.length_filter_lt_length_iff_exists]
  refine exists_congr fun c => and_congr_right fun hc => not_congr ?_
  rw [List.mem_filter]
  exact (and_iff_right hc).symm

namespace Setting.Renumbers

variable {s t : Setting} {σ τ : PackageId → PackageId} {id : PackageId} {xs ys : List PackageId}

/-! ### Candidates -/

theorem bestCandidates (h : s.Renumbers t σ τ) (hr : ∀ id ∈ s.world.ids, s.world.HasRelease id)
    (hc : s.world.Corresponds t.world σ xs ys) :
    s.world.Corresponds t.world σ (s.bestCandidates xs) (t.bestCandidates ys) := by
  unfold Setting.bestCandidates
  rw [h.flags]
  exact h.world.bestCandidates hr _ hc

theorem availableByName (h : s.Renumbers t σ τ) (name : String) :
    s.world.Corresponds t.world σ (s.availableByName name) (t.availableByName name) :=
  (h.world.packagesByName name).filter fun id hid => by rw [h.world.isInstalled hid]

theorem obsoleters (h : s.Renumbers t σ τ) (p : Package) :
    s.world.Corresponds t.world σ (s.obsoleters p) (t.obsoleters p) :=
  h.world.considered.filter fun id hid => by rw [h.world.isInstalled hid, h.world.package id hid]

theorem replacements (h : s.Renumbers t σ τ) (p : Package) :
    s.world.Corresponds t.world σ (s.replacements p) (t.replacements p) := by
  have hmay : ∀ q, t.mayReplace q p = s.mayReplace q p := by
    intro q
    unfold mayReplace
    rw [h.flags]
  have hname := (h.availableByName p.name).filter_package h.world fun q => s.mayReplace q p
  have hobsoleting := (h.obsoleters p).filter
    (P := fun id => s.flags.yumObsoletes || (s.world.package? id).any (·.archCompatible p))
    (Q := fun id => t.flags.yumObsoletes || (t.world.package? id).any (·.archCompatible p))
    fun id hid => by rw [h.flags, h.world.package id hid]
  have hreplacing : s.world.Corresponds t.world σ (s.replacing p) (t.replacing p) := by
    unfold Setting.replacing
    simp only [hmay]
    exact hname.append hobsoleting
  exact hreplacing.congr (fun _ => mem_replacements) fun _ => mem_replacements

theorem distUpgradeCandidates (h : s.Renumbers t σ τ) (hid : id ∈ s.world.ids) (p : Package)
    {a b : Scope} (hscope : Scope.Corresponds s.world σ a b) :
    s.world.Corresponds t.world σ (s.distUpgradeCandidates id p a)
      (t.distUpgradeCandidates (σ id) p b) := by
  have hname := (h.availableByName p.name).filter
    (P := fun c => a.allows c && (s.world.package? c).any (·.archCompatible p))
    (Q := fun c => b.allows c && (t.world.package? c).any (·.archCompatible p))
    fun c hcu => by rw [hscope.allows_eq hcu, h.world.package c hcu]
  have hobsoleting : s.world.Corresponds t.world σ
      (if a == .anywhere then s.obsoleters p else [])
      (if b == .anywhere then t.obsoleters p else []) := by
    rw [hscope.beq_anywhere]
    split
    · exact h.obsoleters p
    · exact .nil
  have hall := hname.append hobsoleting
  have hmapped := hall.map h.world
    (f := fun c => if (s.world.package? c).any (·.sameNevra p) then id else c)
    (g := fun c => if (t.world.package? c).any (·.sameNevra p) then σ id else c)
    (fun c hcx => by
      split
      · exact hid
      · exact hall.left c hcx)
    fun c hcx => by
      rw [h.world.package c (hall.left c hcx)]
      split <;> rfl
  -- sorting and dropping repetitions keep the members
  have hmem : ∀ (w : Universe) (f : PackageId → PackageId) (cs : List PackageId) (c : PackageId),
      c ∈ Rule.distinct ((w.preferred .best none cs).map f) ↔ c ∈ cs.map f := by
    intro w f cs c
    simp only [Rule.mem_distinct, List.mem_map, Universe.mem_preferred]
  exact hmapped.congr (hmem s.world _ _) (hmem t.world _ _)

theorem updateScope (h : s.Renumbers t σ τ) (hid : id ∈ s.world.ids) :
    Scope.Corresponds s.world σ (s.updateScope id) (t.updateScope (σ id)) :=
  Scope.corresponds_ofEntries h.world h.updates hid

theorem distUpgradeScope (h : s.Renumbers t σ τ) (hid : id ∈ s.world.ids) :
    Scope.Corresponds s.world σ (s.distUpgradeScope id) (t.distUpgradeScope (σ id)) :=
  Scope.corresponds_ofEntries h.world h.distUpgrades hid

theorem wantsBest (h : s.Renumbers t σ τ) (hid : id ∈ s.world.ids) :
    t.wantsBest (σ id) = s.wantsBest id := by
  unfold Setting.wantsBest
  rw [Bool.eq_iff_iff, List.any_eq_true, List.any_eq_true]
  refine exists_iff_of_forall₂ h.updates fun e e' he => ?_
  rw [he.1, (Scope.corresponds_ofCandidates h.world he.2 hid).isTouched_eq]

/-! ### Rules of installed packages -/

variable {p : Package}

theorem covered_keepRules (h : s.Renumbers t σ τ)
    (hr : ∀ id ∈ s.world.ids, s.world.HasRelease id) (hid : id ∈ s.world.ids) :
    Covered s.world σ (s.keepRules id p) (t.keepRules (σ id) p) := by
  have hscope := h.updateScope hid
  have hreplacements := h.replacements p
  have hself := Universe.Corresponds.singleton h.world hid
  have hnewer := hreplacements.filter
    (P := fun r => (s.updateScope id).allows r && (s.world.package? r).any (isUpgradeOf · p))
    (Q := fun r => (t.updateScope (σ id)).allows r && (t.world.package? r).any (isUpgradeOf · p))
    fun c hcu => by rw [hscope.allows_eq hcu, h.world.package c hcu]
  unfold keepRules
  dsimp only
  rw [hscope.isTouched_eq, h.wantsBest hid, hnewer.isEmpty_eq h.world]
  split
  · refine Covered.append ?_ ?_
    · split
      · -- the best of what is newer, or the package itself
        refine covered_singleton rfl rfl rfl ?_
        split
        · exact hself.renames h.world
        · exact (h.bestCandidates hr hnewer).renames h.world
      · exact covered_nil
    · have holder := hreplacements.filter
        (P := fun r => !(List.filter (fun r => (s.updateScope id).allows r &&
          (s.world.package? r).any (isUpgradeOf · p)) (s.replacements p)).contains r)
        (Q := fun r => !(List.filter (fun r => (t.updateScope (σ id)).allows r &&
          (t.world.package? r).any (isUpgradeOf · p)) (t.replacements p)).contains r)
        fun c hcu => by rw [hnewer.contains_eq hcu]
      exact covered_singleton rfl rfl rfl ((hnewer.append (hself.append holder)).renames h.world)
  · exact covered_singleton rfl rfl rfl ((hself.append hreplacements).renames h.world)

theorem covered_stayRules (h : s.Renumbers t σ τ)
    (hr : ∀ id ∈ s.world.ids, s.world.HasRelease id) (hid : id ∈ s.world.ids) :
    Covered s.world σ (s.stayRules id p) (t.stayRules (σ id) p) := by
  have hself := Universe.Corresponds.singleton h.world hid
  unfold stayRules
  dsimp only
  rw [h.multiversion id hid, h.allowUninstall id hid]
  refine Covered.append (covered_of_weak fun r hr => ?_) ?_
  · split at hr
    · exact weak_of_mem_multiversionRules hr
    · exact absurd hr (by simp)
  · split
    · exact covered_nil
    · split
      · exact covered_singleton rfl rfl rfl (hself.renames h.world)
      · exact h.covered_keepRules hr hid

theorem covered_installedRules (h : s.Renumbers t σ τ)
    (hr : ∀ id ∈ s.world.ids, s.world.HasRelease id) (hid : id ∈ s.world.ids) :
    Covered s.world σ (s.installedRules id p) (t.installedRules (σ id) p) := by
  have hscope := h.distUpgradeScope hid
  have hcandidates : s.world.Corresponds t.world σ
      (if (s.distUpgradeScope id).isTouched then
        s.distUpgradeCandidates id p (s.distUpgradeScope id) else [])
      (if (t.distUpgradeScope (σ id)).isTouched then
        t.distUpgradeCandidates (σ id) p (t.distUpgradeScope (σ id)) else []) := by
    rw [hscope.isTouched_eq]
    split
    · exact h.distUpgradeCandidates hid p hscope
    · exact .nil
  unfold installedRules
  dsimp only
  generalize (if (s.distUpgradeScope id).isTouched = true then _ else _) = ours at hcandidates ⊢
  generalize (if (t.distUpgradeScope (σ id)).isTouched = true then _ else _) = theirs
    at hcandidates ⊢
  rw [h.erase id hid, h.flags, hcandidates.isEmpty_eq h.world, hscope.isTouched_eq]
  split
  · exact covered_nil
  · split
    · exact covered_singleton rfl rfl rfl (hcandidates.renames h.world)
    · split
      · refine covered_singleton rfl rfl rfl fun l' hl' => ⟨-id, List.mem_singleton_self _, ?_⟩
        rw [List.mem_singleton.mp hl']
        exact .neg hid
      · exact h.covered_stayRules hr hid

theorem covered_allInstalledRules (h : s.Renumbers t σ τ)
    (hr : ∀ id ∈ s.world.ids, s.world.HasRelease id) :
    Covered s.world σ s.allInstalledRules t.allInstalledRules := by
  intro r hmem
  obtain ⟨id, hinstalled, hmem⟩ := List.mem_flatMap.mp hmem
  have hid := h.world.installedIds.left id hinstalled
  have hpackage := h.world.package id hid
  cases hp : s.world.package? id with
  | none =>
      rw [hp] at hmem
      exact absurd hmem (by simp)
  | some p =>
      rw [hp] at hmem hpackage
      refine (h.covered_installedRules hr hid).mono (fun r' hr' => ?_) r hmem
      refine List.mem_flatMap.mpr ⟨σ id, h.world.installedIds.mem hinstalled, ?_⟩
      rw [hpackage]
      exact hr'

/-! ### Rules of requests -/

theorem covered_installRules (h : s.Renumbers t σ τ)
    (hr : ∀ id ∈ s.world.ids, s.world.HasRelease id) {e e' : JobEntry}
    (he : e.Corresponds s.world t.world σ e') :
    Covered s.world σ (s.installRules e) (t.installRules e') := by
  have hcandidates := he.candidates
  have hbest := h.bestCandidates hr hcandidates
  -- the best candidates leave some out in one setting if they do in the other
  have hfewer : decide ((t.bestCandidates (e'.target.resolve t.world)).length <
      (e'.target.resolve t.world).length) =
        decide ((s.bestCandidates (e.target.resolve s.world)).length <
          (e.target.resolve s.world).length) := by
    rw [decide_eq_decide, length_bestCandidates_lt, length_bestCandidates_lt]
    refine ⟨fun ⟨y, hy, hout⟩ => ?_, fun ⟨x, hx, hout⟩ => ⟨σ x, hcandidates.mem hx, ?_⟩⟩
    · obtain ⟨x, hx, rfl⟩ := hcandidates.exists_mem h.world hy
      exact ⟨x, hx, fun hin => hout (hbest.mem hin)⟩
    · exact fun hin => hout ((hbest.mem_iff x (hcandidates.left x hx)).mp hin)
  unfold installRules
  dsimp only
  rw [hcandidates.isEmpty_eq h.world, he.forcebest, hfewer]
  split
  · exact covered_singleton rfl rfl rfl fun l' hl' => absurd hl' (by simp)
  · refine Covered.cons ?_ ?_
    · exact covered_singleton rfl rfl rfl (hcandidates.renames h.world)
    · split
      · exact covered_singleton rfl rfl rfl (hbest.renames h.world)
      · exact covered_nil

theorem covered_eraseRules {e e' : JobEntry} (he : e.Corresponds s.world t.world σ e') :
    Covered s.world σ (s.eraseRules e) (t.eraseRules e') := by
  intro r hr _
  obtain ⟨id, hid, rfl⟩ := List.mem_map.mp hr
  refine ⟨_, List.mem_map.mpr ⟨σ id, he.candidates.mem hid, rfl⟩, rfl, fun l' hl' => ?_⟩
  rw [List.mem_singleton.mp hl']
  exact ⟨-id, List.mem_singleton_self _, .neg (he.candidates.left id hid)⟩

theorem covered_jobRules (h : s.Renumbers t σ τ)
    (hr : ∀ id ∈ s.world.ids, s.world.HasRelease id) :
    Covered s.world σ s.jobRules t.jobRules := by
  intro r hmem hhard
  obtain ⟨q, hq, hmem⟩ := List.mem_flatMap.mp hmem
  obtain ⟨r₀, hr₀, rfl⟩ := List.mem_map.mp hmem
  -- the entry at the same position asks for the same
  obtain ⟨e', he', hmatch⟩ := h.job.exists_entry (List.mem_zipIdx_iff_getElem?.mp hq)
  have hrules : Covered s.world σ (s.entryRules q.1) (t.entryRules e') := by
    unfold entryRules
    rw [hmatch.action]
    split
    · exact h.covered_installRules hr hmatch
    · exact covered_eraseRules hmatch
    · exact covered_nil
  obtain ⟨r', hr', -, hlits⟩ := hrules r₀ hr₀ (hard_of_mem_entryRules hr₀)
  refine ⟨{ r' with job := some q.2, weak := e'.isWeak }, ?_, hmatch.isWeak.trans hhard, hlits⟩
  refine List.mem_flatMap.mpr ⟨(e', q.2), List.mem_zipIdx_iff_getElem?.mpr he', ?_⟩
  exact List.mem_map.mpr ⟨r', hr', rfl⟩

/-- **Every hard request has one that offers nothing more.** -/
theorem covered_requested (h : s.Renumbers t σ τ)
    (hr : ∀ id ∈ s.world.ids, s.world.HasRelease id) :
    Covered s.world σ s.requested t.requested :=
  (h.covered_jobRules hr).append (h.covered_allInstalledRules hr)

/-! ### Consistency -/

theorem toleratesBroken (h : s.Renumbers t σ τ) (hid : id ∈ s.world.ids) :
    t.toleratesBroken (σ id) = s.toleratesBroken id := by
  unfold Setting.toleratesBroken
  rw [h.world.isInstalled hid, h.verify]

theorem excludesSameName (h : s.Renumbers t σ τ) {a b : PackageId} (ha : a ∈ s.world.ids)
    (hb : b ∈ s.world.ids) (p q : Package) :
    t.excludesSameName (σ a) (σ b) p q = s.excludesSameName a b p q := by
  unfold Setting.excludesSameName
  rw [h.verify, h.world.isInstalled ha, h.world.isInstalled hb, h.multiversion a ha,
    h.multiversion b hb]

/-- What a package asks for it asks for under any number. -/
theorem mem_liveRequirements (h : s.Renumbers t σ τ) (hid : id ∈ s.world.ids) {p : Package}
    {r : Relation} (hmem : (r, s.world.whatProvides r) ∈ s.liveRequirements id p) :
    (r, t.world.whatProvides r) ∈ t.liveRequirements (σ id) p := by
  have hproviders := h.world.whatProvides r
  obtain ⟨hr, hlive⟩ := List.mem_filter.mp hmem
  obtain ⟨r', hr', heq⟩ := List.mem_map.mp hr
  obtain rfl := (Prod.mk.inj heq).1
  refine List.mem_filter.mpr ⟨List.mem_map.mpr ⟨r', hr', rfl⟩, ?_⟩
  have hinstalled := hproviders.any_eq h.world fun id hid => h.world.isInstalled hid
  unfold isBrokenRequirement at hlive ⊢
  rw [hproviders.contains_eq hid, h.toleratesBroken hid, hinstalled]
  exact hlive

/-- **What is consistent is so under other numbers.** -/
theorem consistent (h : s.Renumbers t σ τ) {α : Assignment} (hα : t.Consistent (fun _ => True) α)
    (visited : PackageId → Prop) : s.Consistent visited fun id => α (σ id) := by
  have hpackage : ∀ {id : PackageId} {p : Package}, s.world.package? id = some p →
      id ∈ s.world.ids ∧ t.world.package? (σ id) = some p := by
    intro id p hp
    have hid := Catalog.mem_ids.mpr ⟨p, hp⟩
    exact ⟨hid, (h.world.package id hid).trans hp⟩
  refine ⟨?_, ?_, ?_, ?_⟩
  · intro id p _ hp hin q hq
    obtain ⟨hid, hp'⟩ := hpackage hp
    obtain ⟨r, -, rfl⟩ := List.mem_map.mp (List.mem_filter.mp hq).1
    obtain ⟨y, hy, hyα⟩ := hα.requires trivial hp' hin _ (h.mem_liveRequirements hid hq)
    obtain ⟨x, hx, rfl⟩ := (h.world.whatProvides r).exists_mem h.world hy
    exact ⟨x, hx, hyα⟩
  · intro id p _ hp hin c hc x hx
    obtain ⟨hid, hp'⟩ := hpackage hp
    have hprovides := h.world.whatProvides c
    obtain ⟨hne, hout⟩ := hα.conflicts trivial hp' hin c hc (σ x) (hprovides.mem hx)
    refine ⟨fun heq => hne (congrArg σ heq), fun htol => hout ?_⟩
    rw [h.toleratesBroken hid, h.world.isInstalled (hprovides.left x hx)]
    exact htol
  · intro a b p q _ _ hp hq hne hname hex
    obtain ⟨ha, hp'⟩ := hpackage hp
    obtain ⟨hb, hq'⟩ := hpackage hq
    refine hα.sameName trivial trivial hp' hq' (fun heq => hne (h.world.inj ha hb heq)) hname ?_
    rw [h.excludesSameName ha hb]
    exact hex
  · intro id p _ hp hin o ho x q _ hx hne hinstalled hq hname hevr
    obtain ⟨hid, hp'⟩ := hpackage hp
    obtain ⟨hxu, hq'⟩ := hpackage hq
    have hx' := (h.world.packagesByName o.name).mem hx
    refine hα.obsoletes trivial hp' hin o ho trivial hx' (fun heq => hne (h.world.inj hxu hid heq))
      ?_ hq' hname hevr
    rw [h.world.isInstalled hid, h.world.isInstalled hxu]
    exact hinstalled

/-! ### Assignments -/

/-- What a literal says of an assignment that is translated. -/
theorem holds_of_renames (h : s.Renumbers t σ τ) {α : Assignment} {l l' : Literal}
    (hl : s.world.Renames σ l l') (hα : α.holds l' = true) :
    Assignment.holds (fun id => α (σ id)) l = true := by
  cases hl with
  | pos hid =>
      rw [Assignment.holds_of_pos (Universe.pos_of_mem_ids (h.world.mapsTo _ hid))] at hα
      rw [Assignment.holds_of_pos (Universe.pos_of_mem_ids hid)]
      exact hα
  | neg hid =>
      rw [Assignment.holds_neg_iff (Universe.pos_of_mem_ids (h.world.mapsTo _ hid))] at hα
      rw [Assignment.holds_neg_iff (Universe.pos_of_mem_ids hid)]
      exact hα

/-- **What satisfies the hard rules of one setting gives what satisfies those of the other.** -/
theorem modelsHard (h : s.Renumbers t σ τ) (hr : ∀ id ∈ s.world.ids, s.world.HasRelease id)
    {α : Assignment} (hα : α.ModelsHard t.rules) :
    Assignment.ModelsHard (fun id => α.restrict (t.visited t.requested) (σ id)) s.rules := by
  -- what is not in play is left out, so that nothing depends on what came into play
  have hsame : t.Relates t.context := ⟨rfl, fun _ => rfl⟩
  have hconsistent := hsame.consistent t.job (consistent_of_modelsHard hα) fun _ => True
  intro r hmem hhard
  rw [rules_eq, List.mem_append] at hmem
  rcases hmem with hmem | hmem
  · obtain ⟨r', hr', hhard', hlits⟩ := h.covered_requested hr r hmem hhard
    have hsat := satisfies_restrict_of_mem_requested hα hr' hhard'
    obtain ⟨l', hl', hholds⟩ := Assignment.satisfies_iff.mp hsat
    obtain ⟨l, hl, hrename⟩ := hlits l' hl'
    exact Assignment.satisfies_iff.mpr ⟨l, hl, h.holds_of_renames hrename hholds⟩
  · exact models_packageRules.mpr (h.consistent hconsistent _) r hmem

end Setting.Renumbers

/-! ## Verdicts -/

variable {u v : Universe} {σ τ : PackageId → PackageId} {flags : SolverFlags} {job job' : Job}

theorem isSolved_of_renumbers (h : u.Renumbers v σ τ) (hr : ∀ id ∈ u.ids, u.HasRelease id)
    (hjob : job.Corresponds u v σ job')
    (hx : ∀ t ∈ solveSearches u flags job, t.run.isExhausted = false)
    (hsolved : (solve v flags job').isSolved = true) : (solve u flags job).isSolved = true := by
  have hα := (RuleSet.represents_ofList _).modelsHard_iff.mp (modelsHard_of_isSolved hsolved)
  have hβ := (Setting.renumbers_ofJob h flags hjob).modelsHard hr hα
  exact isSolved_of_modelsHard hx ((RuleSet.represents_ofList _).modelsHard_iff.mpr hβ)

/-- Entries that correspond do so both ways. -/
theorem Job.Corresponds.symm (h : u.Renumbers v σ τ) (hjob : job.Corresponds u v σ job') :
    job'.Corresponds v u τ job :=
  List.Forall₂.flip (hjob.imp fun _ _ he =>
    ⟨he.action.symm, he.candidates.symm h, he.isWeak.symm, he.forcebest.symm⟩)

/--
**Verdicts do not depend on how packages are numbered.**

As long as no search runs out of rounds and all versions have a release, a job is solved exactly if
it is solved under other numbers.
-/
theorem isSolved_renumbered (h : u.Renumbers v σ τ) (hr : ∀ id ∈ u.ids, u.HasRelease id)
    (hjob : job.Corresponds u v σ job')
    (hx : ∀ t ∈ solveSearches u flags job, t.run.isExhausted = false)
    (hx' : ∀ t ∈ solveSearches v flags job', t.run.isExhausted = false) :
    (solve v flags job').isSolved = (solve u flags job).isSolved :=
  Bool.eq_iff_iff.mpr ⟨isSolved_of_renumbers h hr hjob hx,
    isSolved_of_renumbers h.symm (h.hasRelease hr) (hjob.symm h) hx'⟩

end DepSolver
