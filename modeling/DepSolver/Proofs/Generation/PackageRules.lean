import Mathlib.Data.List.Nodup
import Mathlib.Data.List.Pairwise
import DepSolver.Generation.Package
import DepSolver.Proofs.Generation.Reach
import DepSolver.Proofs.Order.Sort
import DepSolver.Proofs.Rule.Models

/-!
# What the rules of packages ask for

The rules of requirements, conflicts, shared names and obsoletes come in lists whose order and
grouping matter only to how problems are told. What they ask of an assignment is `Consistent`: among
the packages that come into play, what is present has its requirements met and is at odds with
nothing else that is present. `models_packageRules` says that the rules ask for exactly this.
-/

namespace DepSolver

/-! ## Rules one by one -/

namespace Assignment

variable {α : Assignment} {id : PackageId}

theorem satisfies_make (kind : RuleKind) (ls : List Literal) :
    α.satisfies (.make kind ls) = true ↔ ∃ l ∈ ls, α.holds l = true := by
  rw [satisfies_iff]
  simp only [Rule.make_literals, Rule.mem_distinct]

theorem holds_neg_iff (h : 0 < id) : α.holds (-id) = true ↔ α id = false := by
  rw [holds_of_neg (Int.neg_neg_of_pos h), Int.neg_neg, Bool.not_eq_true']

theorem satisfies_make_neg (kind : RuleKind) (h : 0 < id) :
    α.satisfies (.make kind [-id]) = true ↔ α id = false := by
  rw [satisfies_make]
  simp only [List.mem_singleton, exists_eq_left, holds_neg_iff h]

theorem satisfies_requires {providers : List PackageId} (h : 0 < id)
    (hp : ∀ q ∈ providers, 0 < q) : α.satisfies (Rule.requires id providers) = true ↔
      (α id = true → ∃ q ∈ providers, α q = true) := by
  have hrule : α.satisfies (Rule.requires id providers) =
      α.satisfies (.make .packageRequires (-id :: providers)) := rfl
  rw [hrule, satisfies_make]
  refine ⟨?_, ?_⟩
  · intro hs hid
    obtain ⟨l, hl, hholds⟩ := hs
    rcases List.mem_cons.mp hl with rfl | hl
    · rw [holds_neg_iff h, hid] at hholds
      exact absurd hholds (by simp)
    · rw [holds_of_pos (hp l hl)] at hholds
      exact ⟨l, hl, hholds⟩
  · intro himp
    rcases hid : α id
    · exact ⟨-id, List.mem_cons_self .., (holds_neg_iff h).mpr hid⟩
    · obtain ⟨q, hq, hqα⟩ := himp hid
      exact ⟨q, List.mem_cons_of_mem _ hq, by rw [holds_of_pos (hp q hq), hqα]⟩

theorem satisfies_exclusion (kind : RuleKind) {other : PackageId} (h : 0 < id) (ho : 0 < other) :
    α.satisfies (Rule.exclusion kind id other) = true ↔ α id = false ∨ α other = false := by
  have hrule : α.satisfies (Rule.exclusion kind id other) =
      α.satisfies (.make kind [-id, -other]) := rfl
  rw [hrule, satisfies_make]
  simp only [List.mem_cons, List.not_mem_nil, or_false, exists_eq_or_imp, exists_eq_left,
    holds_neg_iff h, holds_neg_iff ho]

/-- The text of a dependency says nothing about the rule. -/
@[simp] theorem satisfies_withDep (r : Rule) (dep : String) :
    α.satisfies (r.withDep dep) = α.satisfies r := rfl

theorem satisfies_nothingProvides (h : 0 < id) :
    α.satisfies (Rule.nothingProvides id) = true ↔ α id = false :=
  satisfies_make_neg .packageNothingProvides h

theorem satisfies_selfConflict (h : 0 < id) :
    α.satisfies (Rule.selfConflict id) = true ↔ α id = false :=
  satisfies_make_neg .packageSelfConflict h

variable {other : PackageId}

theorem satisfies_conflict (h : 0 < id) (ho : 0 < other) :
    α.satisfies (Rule.conflict id other) = true ↔ α id = false ∨ α other = false :=
  satisfies_exclusion .packageConflict h ho

theorem satisfies_sameName (h : 0 < id) (ho : 0 < other) :
    α.satisfies (Rule.sameName id other) = true ↔ α id = false ∨ α other = false :=
  satisfies_exclusion .packageSameName h ho

theorem satisfies_obsoletes {installed : Bool} (h : 0 < id) (ho : 0 < other) :
    α.satisfies (Rule.obsoletes id other installed) = true ↔ α id = false ∨ α other = false := by
  unfold Rule.obsoletes
  exact satisfies_exclusion _ h ho

end Assignment

namespace Setting

variable {s : Setting} {α : Assignment}

/-! ## Consistency -/

/-- **What the packages that come into play ask of those that are present.** -/
structure Consistent (s : Setting) (visited : PackageId → Prop) (α : Assignment) : Prop where
  requires : ∀ {id : PackageId} {p : Package}, visited id → s.world.package? id = some p →
    α id = true → ∀ q ∈ s.liveRequirements id p, ∃ x ∈ q.2, α x = true
  conflicts : ∀ {id : PackageId} {p : Package}, visited id → s.world.package? id = some p →
    α id = true → ∀ c ∈ p.conflicts, ∀ x ∈ s.world.whatProvides c,
      x ≠ id ∧ ((s.toleratesBroken id && s.world.isInstalled x) = false → α x = false)
  sameName : ∀ {a b : PackageId} {p q : Package}, visited a → visited b →
    s.world.package? a = some p → s.world.package? b = some q → a ≠ b → p.name = q.name →
      s.excludesSameName a b p q = true → α a = false ∨ α b = false
  obsoletes : ∀ {id : PackageId} {p : Package}, visited id → s.world.package? id = some p →
    α id = true → ∀ o ∈ p.obsoletes, ∀ {x : PackageId} {q : Package}, visited x →
      x ∈ s.world.packagesByName o.name → x ≠ id →
        (s.world.isInstalled id && s.world.isInstalled x) = false →
          s.world.package? x = some q → q.name ≠ p.name → o.matchesEvr q.evr = true → α x = false

theorem models_append {rules more : List Rule} :
    α.Models (rules ++ more) ↔ α.Models rules ∧ α.Models more := List.forall_mem_append

/-! ## Requirements and conflicts -/

theorem pos_of_mem_whatProvides {u : Universe} {r : Relation} {id : PackageId}
    (h : id ∈ u.whatProvides r) : 0 < id :=
  Universe.pos_of_isConsidered (Universe.isConsidered_of_mem_whatProvides h)

theorem pos_of_mem_liveRequirements {id : PackageId} {p : Package}
    {q : Relation × List PackageId} (hq : q ∈ s.liveRequirements id p) : ∀ x ∈ q.2, 0 < x := by
  obtain ⟨r, -, rfl⟩ := List.mem_map.mp (List.mem_filter.mp hq).1
  exact fun x hx => pos_of_mem_whatProvides hx

theorem models_requirementRules {id : PackageId} {p : Package} (h : 0 < id) :
    α.Models (s.requirementRules id p) ↔
      (α id = true → ∀ q ∈ s.liveRequirements id p, ∃ x ∈ q.2, α x = true) := by
  have hone : ∀ q ∈ s.liveRequirements id p,
      (α.satisfies ((if q.2.isEmpty then Rule.nothingProvides id else Rule.requires id q.2).withDep
        q.1.toText) = true ↔ (α id = true → ∃ x ∈ q.2, α x = true)) := by
    intro q hq
    rw [Assignment.satisfies_withDep]
    split
    · rename_i hnil
      rw [List.isEmpty_iff.mp hnil]
      rw [Assignment.satisfies_nothingProvides h]
      simp
    · exact Assignment.satisfies_requires h (pos_of_mem_liveRequirements hq)
  unfold Assignment.Models requirementRules
  rw [List.forall_mem_map]
  refine ⟨?_, ?_⟩
  · exact fun hall hid q hq => (hone q hq).mp (hall q hq) hid
  · exact fun himp q hq => (hone q hq).mpr fun hid => himp hid q hq

theorem models_conflictRules {id : PackageId} {p : Package} (h : 0 < id) :
    α.Models (s.conflictRules id p) ↔
      (α id = true → ∀ c ∈ p.conflicts, ∀ x ∈ s.world.whatProvides c,
        x ≠ id ∧ ((s.toleratesBroken id && s.world.isInstalled x) = false → α x = false)) := by
  unfold Assignment.Models conflictRules
  simp only [List.mem_flatMap, List.mem_filterMap]
  refine ⟨?_, ?_⟩
  · intro hall hid c hc x hx
    -- a rule of its own forbids a package that conflicts with itself
    have hne : x ≠ id := by
      intro he
      have := hall _ ⟨c, hc, x, hx, if_pos he⟩
      rw [Assignment.satisfies_withDep, Assignment.satisfies_selfConflict h, hid] at this
      exact absurd this (by simp)
    refine ⟨hne, fun htol => ?_⟩
    have := hall _ ⟨c, hc, x, hx, by rw [if_neg hne, htol]; rfl⟩
    rw [Assignment.satisfies_withDep,
      Assignment.satisfies_conflict h (pos_of_mem_whatProvides hx), hid] at this
    exact this.resolve_left (by simp)
  · intro himp r hr
    obtain ⟨c, hc, x, hx, hr⟩ := hr
    split at hr
    · rename_i he
      rw [← Option.some.inj hr]
      rw [Assignment.satisfies_withDep, Assignment.satisfies_selfConflict h, ← Bool.not_eq_true]
      exact fun hid => (himp hid c hc x hx).1 he
    · split at hr
      · exact absurd hr (by simp)
      · rename_i htol
        rw [← Option.some.inj hr]
        rw [Assignment.satisfies_withDep,
          Assignment.satisfies_conflict h (pos_of_mem_whatProvides hx)]
        rcases hid : α id
        · exact .inl rfl
        · exact .inr ((himp hid c hc x hx).2 (Bool.not_eq_true _ ▸ htol))

/-! ## Shared names -/

theorem excludesSameName_symm (a b : PackageId) (p q : Package) :
    s.excludesSameName a b p q = s.excludesSameName b a q p := by
  unfold excludesSameName Package.archCompatible Package.sameNevra
  rw [Bool.and_comm (s.world.isInstalled a), Bool.or_comm (s.context.multiversion.contains a),
    BEq.comm (a := p.arch), BEq.comm (a := p.name), BEq.comm (a := p.evr), Bool.or_assoc,
    Bool.or_assoc, Bool.or_comm p.isNoarch]

/-- Whether two packages are not both present, if their shared name forbids it. -/
def MayShare (s : Setting) (α : Assignment) (a b : PackageId × Package) : Prop :=
  a.2.name = b.2.name → s.excludesSameName a.1 b.1 a.2 b.2 = true → α a.1 = false ∨ α b.1 = false

instance : Std.Symm (MayShare s α) where
  symm a b h hname hex := (h hname.symm (by rw [excludesSameName_symm, hex])).symm

theorem models_sameNameRules : ∀ {packages : List (PackageId × Package)},
    (∀ a ∈ packages, 0 < a.1) →
      (α.Models (s.sameNameRules packages) ↔ packages.Pairwise (s.MayShare α))
  | [], _ => iff_of_true (fun _ h => absurd h (by simp [sameNameRules])) List.Pairwise.nil
  | a :: later, hpos => by
      have hlater := fun b hb => hpos b (List.mem_cons_of_mem _ hb)
      have ha := hpos a (List.mem_cons_self ..)
      rw [sameNameRules, models_append, models_sameNameRules hlater, List.pairwise_cons]
      refine and_congr_left fun _ => ?_
      unfold Assignment.Models sameNameRulesOf
      rw [List.forall_mem_map]
      simp only [List.mem_filter, Bool.and_eq_true, beq_iff_eq]
      refine ⟨?_, ?_⟩
      · intro hall b hb hname hex
        exact (Assignment.satisfies_sameName ha (hlater b hb)).mp (hall b ⟨hb, hname.symm, hex⟩)
      · intro hall b hb
        exact (Assignment.satisfies_sameName ha (hlater b hb.1)).mpr
          (hall b hb.1 hb.2.1.symm hb.2.2)

/-- Some names with another one, unless it is there already. -/
def withName (names : List String) (name : String) : List String :=
  if names.contains name then names else names ++ [name]

theorem mem_withName {names : List String} {name n : String} :
    n ∈ withName names name ↔ n ∈ names ∨ name = n := by
  unfold withName
  split
  · rename_i h
    rw [List.contains_iff_mem] at h
    refine ⟨.inl, fun hor => ?_⟩
    rcases hor with hn | rfl
    · exact hn
    · exact h
  · rw [List.mem_append, List.mem_singleton]
    exact or_congr_right eq_comm

theorem nodup_withName {names : List String} (h : names.Nodup) (name : String) :
    (withName names name).Nodup := by
  unfold withName
  split
  · exact h
  · rename_i hnew
    rw [List.contains_iff_mem] at hnew
    rw [List.nodup_append]
    refine ⟨h, by simp, fun a ha b hb he => ?_⟩
    rw [List.mem_singleton.mp hb] at he
    exact hnew (he ▸ ha)

/-- The names of some packages. -/
def namesOf (packages : List (PackageId × Package)) (names : List String) : List String :=
  packages.foldl (fun names p => withName names p.2.name) names

theorem mem_namesOf {packages : List (PackageId × Package)} {names : List String} {n : String} :
    n ∈ namesOf packages names ↔ n ∈ names ∨ ∃ p ∈ packages, p.2.name = n := by
  unfold namesOf
  induction packages generalizing names with
  | nil => simp
  | cons p packages ih =>
    rw [List.foldl_cons, ih, mem_withName, or_assoc]
    simp only [List.mem_cons, exists_eq_or_imp]

/-- Each of them is there once. -/
theorem nodup_namesOf (packages : List (PackageId × Package)) {names : List String}
    (h : names.Nodup) : (namesOf packages names).Nodup := by
  unfold namesOf
  induction packages generalizing names with
  | nil => exact h
  | cons p packages ih => exact ih (nodup_withName h _)

theorem groupByName_eq (packages : List (PackageId × Package)) :
    groupByName packages = (namesOf packages []).flatMap fun name =>
      packages.filter fun p => p.2.name == name := rfl

theorem mem_groupByName {packages : List (PackageId × Package)} {a : PackageId × Package} :
    a ∈ groupByName packages ↔ a ∈ packages := by
  rw [groupByName_eq, List.mem_flatMap]
  refine ⟨?_, ?_⟩
  · intro h
    obtain ⟨n, -, ha⟩ := h
    exact (List.mem_filter.mp ha).1
  · intro ha
    refine ⟨a.2.name, mem_namesOf.mpr (.inr ⟨a, ha, rfl⟩), ?_⟩
    exact List.mem_filter.mpr ⟨ha, beq_iff_eq.mpr rfl⟩

theorem nodup_groupByName {packages : List (PackageId × Package)} (h : packages.Nodup) :
    (groupByName packages).Nodup := by
  rw [groupByName_eq, List.Nodup, List.pairwise_flatMap]
  have hnames := nodup_namesOf packages List.nodup_nil
  refine ⟨fun n _ => h.filter _, hnames.imp fun {m n} hmn a ha b hb he => ?_⟩
  have hm := beq_iff_eq.mp (List.mem_filter.mp ha).2
  have hn := beq_iff_eq.mp (List.mem_filter.mp hb).2
  exact hmn (by rw [← hm, ← hn, he])

/-! ## All package rules -/

/-- The packages that come into play, as the rules see them. -/
def playing (s : Setting) (rules : List Rule) : List (PackageId × Package) :=
  (PackageSet.ofList (s.visited rules)).toList.filterMap fun id =>
    (s.world.package? id).map fun p => (id, p)

theorem mem_ids_of_visited {rules : List Rule} {id : PackageId} (h : id ∈ s.visited rules) :
    id ∈ s.world.ids := (Universe.mem_reach.mp h).mem_ids

theorem pos_of_visited {rules : List Rule} {id : PackageId} (h : id ∈ s.visited rules) :
    0 < id := by
  obtain ⟨p, hp⟩ := Catalog.mem_ids.mp (mem_ids_of_visited h)
  exact Catalog.pos_of_package? hp

theorem visited_contains {rules : List Rule} {id : PackageId} :
    (PackageSet.ofList (s.visited rules)).contains id = true ↔ id ∈ s.visited rules := by
  rw [PackageSet.contains_ofList]
  exact and_iff_right_of_imp pos_of_visited

theorem mem_playing {rules : List Rule} {id : PackageId} {p : Package} :
    (id, p) ∈ s.playing rules ↔ id ∈ s.visited rules ∧ s.world.package? id = some p := by
  unfold playing
  rw [List.mem_filterMap]
  refine ⟨?_, ?_⟩
  · intro h
    obtain ⟨x, hx, hp⟩ := h
    obtain ⟨q, hq, he⟩ := Option.map_eq_some_iff.mp hp
    obtain ⟨rfl, rfl⟩ := Prod.mk.inj he
    exact ⟨visited_contains.mp (PackageSet.mem_toList.mp hx), hq⟩
  · intro h
    obtain ⟨hid, hp⟩ := h
    refine ⟨id, PackageSet.mem_toList.mpr (visited_contains.mpr hid), ?_⟩
    rw [hp]
    rfl

theorem nodup_playing (rules : List Rule) : (s.playing rules).Nodup := by
  unfold playing
  rw [List.Nodup, List.pairwise_filterMap]
  refine (PackageSet.nodup_toList _).imp fun {a b} hab x hx y hy he => hab ?_
  obtain ⟨p, -, rfl⟩ := Option.map_eq_some_iff.mp hx
  obtain ⟨q, -, rfl⟩ := Option.map_eq_some_iff.mp hy
  exact congrArg Prod.fst he

theorem models_obsoletesRules {visited : PackageSet} {id : PackageId} {p : Package} (h : 0 < id) :
    α.Models (s.obsoletesRules visited id p) ↔
      (α id = true → ∀ o ∈ p.obsoletes, ∀ x ∈ s.world.packagesByName o.name,
        visited.contains x = true → x ≠ id →
          (s.world.isInstalled id && s.world.isInstalled x) = false →
            ∀ q, s.world.package? x = some q → q.name ≠ p.name → o.matchesEvr q.evr = true →
              α x = false) := by
  unfold Assignment.Models obsoletesRules
  simp only [List.mem_flatMap, List.mem_map, List.mem_filter, Bool.and_eq_true, bne_iff_ne,
    Bool.not_eq_true', Option.any_eq_true]
  have hpos : ∀ {o : Relation} {x : PackageId}, x ∈ s.world.packagesByName o.name → 0 < x :=
    fun hx => Universe.pos_of_isConsidered (Universe.mem_packagesByName.mp hx).1
  refine ⟨?_, ?_⟩
  · intro hall hid o ho x hx hv hne htol q hq hname hevr
    have := hall _ ⟨o, ho, x, ⟨hx, ⟨⟨hv, hne⟩, htol⟩, q, hq, hname, hevr⟩, rfl⟩
    rw [Assignment.satisfies_withDep, Assignment.satisfies_obsoletes h (hpos hx), hid] at this
    exact this.resolve_left (by simp)
  · intro himp r hs
    obtain ⟨o, ho, x, ⟨hx, ⟨⟨hv, hne⟩, htol⟩, q, hq, hname, hevr⟩, rfl⟩ := hs
    rw [Assignment.satisfies_withDep, Assignment.satisfies_obsoletes h (hpos hx)]
    rcases hid : α id
    · exact .inl rfl
    · exact .inr (himp hid o ho x hx hv hne htol q hq hname hevr)

theorem models_flatMap {β : Type} {items : List β} {f : β → List Rule} :
    α.Models (items.flatMap f) ↔ ∀ b ∈ items, α.Models (f b) := by
  unfold Assignment.Models
  simp only [List.mem_flatMap]
  exact ⟨fun h b hb r hr => h r ⟨b, hb, hr⟩, fun h r ⟨b, hb, hr⟩ => h b hb r hr⟩

/-- **The package rules ask for consistency**, and for nothing else. -/
theorem models_packageRules {rules : List Rule} :
    α.Models (s.packageRules rules) ↔ s.Consistent (· ∈ s.visited rules) α := by
  have hplaying : ∀ a ∈ groupByName (s.playing rules), 0 < a.1 := fun a ha =>
    pos_of_visited (mem_playing.mp (mem_groupByName.mp ha)).1
  have heq : s.packageRules rules = (s.visited rules).flatMap s.dependencyRules ++
      s.sameNameRules (groupByName (s.playing rules)) ++ (s.playing rules).flatMap fun p =>
        s.obsoletesRules (PackageSet.ofList (s.visited rules)) p.1 p.2 := rfl
  rw [heq, models_append, models_append, models_flatMap, models_flatMap,
    models_sameNameRules hplaying]
  refine ⟨?_, ?_⟩
  · intro hs
    obtain ⟨⟨hdeps, hnames⟩, hobs⟩ := hs
    have hboth : ∀ {id : PackageId} {p : Package}, id ∈ s.visited rules →
        s.world.package? id = some p →
          α.Models (s.requirementRules id p) ∧ α.Models (s.conflictRules id p) := by
      intro id p hid hp
      have := hdeps id hid
      unfold dependencyRules at this
      rw [hp] at this
      exact models_append.mp this
    refine ⟨fun hid hp => ?_, fun hid hp => ?_, fun ha hb hp hq hne => ?_,
      fun {id p} hid hp => ?_⟩
    · exact (models_requirementRules (pos_of_visited hid)).mp (hboth hid hp).1
    · exact (models_conflictRules (pos_of_visited hid)).mp (hboth hid hp).2
    · have ha' := mem_groupByName.mpr (mem_playing.mpr ⟨ha, hp⟩)
      have hb' := mem_groupByName.mpr (mem_playing.mpr ⟨hb, hq⟩)
      exact hnames.forall ha' hb' fun he => hne (congrArg Prod.fst he)
    · intro hα o ho x q hx hmem hne htol hq hname hevr
      have hrules : α.Models (s.obsoletesRules (.ofList (s.visited rules)) id p) :=
        hobs (id, p) (mem_playing.mpr ⟨hid, hp⟩)
      exact (models_obsoletesRules (pos_of_visited hid)).mp hrules hα o ho x hmem
        (visited_contains.mpr hx) hne htol q hq hname hevr
  · intro h
    refine ⟨⟨fun id hid => ?_, ?_⟩, fun a ha => ?_⟩
    · unfold dependencyRules
      split
      · rename_i p hp
        refine models_append.mpr ⟨?_, ?_⟩
        · exact (models_requirementRules (pos_of_visited hid)).mpr (h.requires hid hp)
        · exact (models_conflictRules (pos_of_visited hid)).mpr (h.conflicts hid hp)
      · exact fun r hr => absurd hr (by simp)
    · -- two packages in play that differ have different numbers
      refine (nodup_groupByName (nodup_playing rules)).pairwise_of_forall_ne fun a ha b hb hne => ?_
      obtain ⟨hav, hap⟩ := mem_playing.mp (mem_groupByName.mp ha)
      obtain ⟨hbv, hbp⟩ := mem_playing.mp (mem_groupByName.mp hb)
      refine h.sameName hav hbv hap hbp fun he => hne ?_
      rw [he, hbp] at hap
      exact Prod.ext he (Option.some.inj hap).symm
    · obtain ⟨hav, hap⟩ := mem_playing.mp ha
      refine (models_obsoletesRules (pos_of_visited hav)).mpr ?_
      intro hα o ho x hx hv hne htol q hq
      exact h.obsoletes hav hap hα o ho (visited_contains.mp hv) hx hne htol hq

end Setting

end DepSolver
