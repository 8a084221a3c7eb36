import DepSolver.Proofs.Relation.Matches
import DepSolver.Proofs.Relation.RoundTrip
import DepSolver.Proofs.Selector.Translation

/-!
# What an added filter leaves of a selector

Architecture, version and repository narrow the targets of a selector one after the other. A filter
that is added takes its place among them, so it has to be seen through the steps behind it. This is
done by an order of targets: one refines another if it asks for all that the other does. Each step
respects the order, and takes a target to one that refines it, with one exception.

The exception is a version. It takes the place of whatever constraint a relation has, and a provide
may have one from the start. What is left is then among what the name of the provide stands for, but
need not be among what the selector stood for before.
-/

namespace DepSolver

/-! ## Asking for more -/

namespace Relation

/-- Whether a relation asks for all that another one of its name does. -/
structure Refines (r s : Relation) : Prop where
  name : r.name = s.name
  constraint : ∀ c, s.constraint = some c → r.constraint = some c

variable {r s t : Relation}

theorem Refines.refl (r : Relation) : r.Refines r := ⟨rfl, fun _ h => h⟩

theorem Refines.trans (h : r.Refines s) (h' : s.Refines t) : r.Refines t :=
  ⟨h.name.trans h'.name, fun c hc => h.constraint c (h'.constraint c hc)⟩

/-- What asks for no version is refined by every relation of the name. -/
theorem Refines.of_unconstrained (hname : r.name = s.name) (h : s.constraint = none) :
    r.Refines s := by
  refine ⟨hname, fun c hc => ?_⟩
  rw [h] at hc
  exact absurd hc (by simp)

theorem Refines.intersects (h : r.Refines s) {p : Relation} (hp : p.intersects r = true) :
    p.intersects s = true := by
  unfold Relation.intersects at hp ⊢
  rw [h.name] at hp
  cases hs : s.constraint with
  | none =>
      rw [Bool.and_eq_true] at hp ⊢
      refine ⟨hp.1, ?_⟩
      cases p.constraint <;> rfl
  | some c =>
      rw [h.constraint c hs] at hp
      exact hp

theorem Refines.isVersioned (h : r.Refines s) (hr : r.isVersioned = false) :
    s.isVersioned = false := by
  unfold Relation.isVersioned at hr ⊢
  cases hs : s.constraint with
  | none => rfl
  | some c =>
      rw [h.constraint c hs] at hr
      exact absurd hr (by simp)

/-- What meets a relation meets every relation that it refines. -/
theorem Refines.meets (h : r.Refines s) {p : Package} (hp : Universe.meets p r = true) :
    Universe.meets p s = true := by
  unfold Universe.meets at hp ⊢
  rw [Bool.or_eq_true] at hp ⊢
  rcases hp with hprovide | hfile
  · obtain ⟨provide, hmem, hoverlap⟩ := List.any_eq_true.mp hprovide
    exact .inl (List.any_eq_true.mpr ⟨provide, hmem, h.intersects hoverlap⟩)
  · simp only [Bool.and_eq_true, Bool.not_eq_true'] at hfile ⊢
    obtain ⟨⟨hpath, hr⟩, hfiles⟩ := hfile
    rw [h.name] at hpath hfiles
    exact .inr ⟨⟨hpath, h.isVersioned hr⟩, hfiles⟩

/-- The name of a relation that was read is itself read as a relation, without a constraint. -/
theorem parse_name {text : String} (h : parse text = .ok r) : parse r.name = .ok (ofName r.name) := by
  obtain ⟨⟨hne, hname⟩, -⟩ := wasRead_of_parse h
  unfold parse
  rw [splitParts?_name hname hne]
  dsimp only
  rw [String.ofList_toList]

end Relation

namespace JobTarget

/-- Whether a target asks for all that another one does. -/
inductive Refines : JobTarget → JobTarget → Prop
  | refl (t : JobTarget) : Refines t t
  | name {r s : Relation} {arch arch' : Option String} (relation : r.Refines s)
      (harch : ∀ a, arch' = some a → arch = some a) : Refines (.name r arch) (.name s arch')
  | provides {r s : Relation} {arch arch' : Option String} (relation : r.Refines s)
      (harch : ∀ a, arch' = some a → arch = some a) : Refines (.provides r arch) (.provides s arch')
  | oneOf {kept packages : PackageSet} (hkept : ∀ id ∈ kept, id ∈ packages) :
      Refines (.oneOf kept) (.oneOf packages)

variable {u : Universe} {t t' t'' : JobTarget}

theorem Refines.trans (h : t.Refines t') (h' : t'.Refines t'') : t.Refines t'' := by
  cases h with
  | refl => exact h'
  | name hr harch =>
    cases h' with
    | refl => exact .name hr harch
    | name hr' harch' => exact .name (hr.trans hr') fun a ha => harch a (harch' a ha)
  | provides hr harch =>
    cases h' with
    | refl => exact .provides hr harch
    | provides hr' harch' => exact .provides (hr.trans hr') fun a ha => harch a (harch' a ha)
  | oneOf hkept =>
    cases h' with
    | refl => exact .oneOf hkept
    | oneOf hkept' => exact .oneOf fun id hid => hkept' id (hkept id hid)

theorem archFits_of_refines {arch arch' : Option String}
    (harch : ∀ a, arch' = some a → arch = some a) {id : PackageId}
    (h : archFits u arch id = true) : archFits u arch' id = true := by
  cases harch' : arch' with
  | none => rfl
  | some a =>
      rw [harch a harch'] at h
      exact h

/-- **To ask for more is to stand for no more packages.** -/
theorem Refines.resolve_subset (h : t.Refines t') : t.resolve u ⊆ t'.resolve u := by
  intro id hid
  cases h with
  | refl => exact hid
  | name hr harch =>
      obtain ⟨hc, ⟨p, hp, hself⟩, hfits⟩ := mem_resolve_name.mp hid
      exact mem_resolve_name.mpr ⟨hc, ⟨p, hp, hr.intersects hself⟩, archFits_of_refines harch hfits⟩
  | provides hr harch =>
      obtain ⟨hprovides, hfits⟩ := List.mem_filter.mp hid
      obtain ⟨hc, p, hp, hmeets⟩ := Universe.mem_whatProvides.mp hprovides
      exact List.mem_filter.mpr
        ⟨Universe.mem_whatProvides.mpr ⟨hc, p, hp, hr.meets hmeets⟩, archFits_of_refines harch hfits⟩
  | oneOf hkept =>
      unfold resolve at hid ⊢
      rw [PackageSet.mem_toList, PackageSet.contains_inter] at hid ⊢
      exact ⟨hkept id hid.1, hid.2⟩

/-- The architecture that a target asks for. -/
def arch? : JobTarget → Option String
  | .name _ arch | .provides _ arch => arch
  | _ => none

/-- The range of versions that a target asks for. -/
def constraint? : JobTarget → Option (Operator × Evr)
  | .name relation _ | .provides relation _ => relation.constraint
  | _ => none

end JobTarget

namespace Selector

variable {u : Universe} {job : Job} {s s' : Selector} {f : Filter}
  {before after base : List Selection} {t t' k : JobTarget}

/-! ## Narrowing one target -/

/-- Whether a way of narrowing leaves more of a target that asks for less. -/
def Respects (narrow : JobTarget → Option JobTarget) : Prop :=
  ∀ t t' k, t.Refines t' → narrow t = some k → ∃ k', narrow t' = some k' ∧ k.Refines k'

theorem anyOf_eq_some {ids : List PackageId} :
    anyOf ids = some k ↔ k = .oneOf (.ofList ids) ∧ ∃ id ∈ ids, 0 < id := by
  have hempty : (PackageSet.ofList ids).isEmpty = true ↔ ¬∃ id ∈ ids, 0 < id := by
    rw [PackageSet.isEmpty_iff (PackageSet.bit_zero_ofList ids)]
    simp only [← Bool.not_eq_true, PackageSet.contains_ofList, not_exists, not_and]
    exact forall_congr' fun id => ⟨fun h hid hpos => h hpos hid, fun h hpos hid => h hid hpos⟩
  unfold anyOf
  dsimp only
  by_cases hnone : (PackageSet.ofList ids).isEmpty = true
  · rw [if_pos hnone]
    exact iff_of_false (by simp) fun h => hempty.mp hnone h.2
  · rw [if_neg hnone, Option.some.injEq, eq_comm]
    exact (and_iff_left (Decidable.not_not.mp fun h => hnone (hempty.mpr h))).symm

theorem anyOf_respects {ids ids' : List PackageId} (h : ids ⊆ ids') (hk : anyOf ids = some k) :
    ∃ k', anyOf ids' = some k' ∧ k.Refines k' := by
  obtain ⟨rfl, id, hid, hpos⟩ := anyOf_eq_some.mp hk
  refine ⟨_, anyOf_eq_some.mpr ⟨rfl, id, h hid, hpos⟩, .oneOf fun id hid => ?_⟩
  obtain ⟨hpos, hmem⟩ := PackageSet.contains_ofList.mp hid
  exact PackageSet.contains_ofList.mpr ⟨hpos, h hmem⟩

theorem narrowSet_respects {kept packages : PackageSet} {keep : Package → Bool}
    (h : ∀ id ∈ kept, id ∈ packages) (hk : narrowSet u kept keep = some k) :
    ∃ k', narrowSet u packages keep = some k' ∧ k.Refines k' := by
  refine anyOf_respects (List.filter_subset _ ?_) hk
  intro id hid
  exact PackageSet.mem_toList.mpr (h id (PackageSet.mem_toList.mp hid))

theorem narrowSet_refines {packages : PackageSet} {keep : Package → Bool}
    (hk : narrowSet u packages keep = some k) : k.Refines (.oneOf packages) := by
  obtain ⟨rfl, -⟩ := anyOf_eq_some.mp hk
  refine .oneOf fun id hid => ?_
  obtain ⟨-, hmem⟩ := PackageSet.contains_ofList.mp hid
  exact PackageSet.mem_toList.mp (List.mem_filter.mp hmem).1

theorem archTarget_respects (arch : String) : Respects (archTarget u arch) := by
  intro t t' k h hk
  cases h with
  | refl => exact ⟨k, hk, .refl k⟩
  | name hr _ =>
      obtain rfl := Option.some.inj hk
      exact ⟨_, rfl, .name hr fun _ h => h⟩
  | provides hr _ =>
      obtain rfl := Option.some.inj hk
      exact ⟨_, rfl, .provides hr fun _ h => h⟩
  | oneOf hkept => exact narrowSet_respects hkept hk

/-- An architecture refines a target that asks for none. -/
theorem archTarget_refines {arch : String} (hopen : t.arch? = none)
    (hk : archTarget u arch t = some k) : k.Refines t := by
  cases t with
  | name r a =>
      obtain rfl := Option.some.inj hk
      exact .name (.refl r) fun a ha => absurd (hopen.symm.trans ha) (by simp)
  | provides r a =>
      obtain rfl := Option.some.inj hk
      exact .provides (.refl r) fun a ha => absurd (hopen.symm.trans ha) (by simp)
  | oneOf packages => exact narrowSet_refines hk
  | package _ | repo _ | all =>
      obtain rfl := Option.some.inj hk
      exact .refl _

theorem constraint?_archTarget {arch : String} (hk : archTarget u arch t = some k) :
    k.constraint? = t.constraint? := by
  cases t with
  | oneOf packages =>
      obtain ⟨rfl, -⟩ := anyOf_eq_some.mp hk
      rfl
  | name _ _ | provides _ _ | package _ | repo _ | all =>
      obtain rfl := Option.some.inj hk
      rfl

theorem evrTarget_respects (key : FilterKey) (evr : Evr) : Respects (evrTarget u key evr) := by
  have hconstrained : ∀ {r s : Relation}, r.Refines s →
      (r.constrained .equal evr).Refines (s.constrained .equal evr) :=
    fun h => ⟨h.name, fun _ hc => hc⟩
  intro t t' k h hk
  cases h with
  | refl => exact ⟨k, hk, .refl k⟩
  | name hr harch =>
      obtain rfl := Option.some.inj hk
      exact ⟨_, rfl, .name (hconstrained hr) harch⟩
  | provides hr harch =>
      obtain rfl := Option.some.inj hk
      exact ⟨_, rfl, .provides (hconstrained hr) harch⟩
  | oneOf hkept => exact narrowSet_respects hkept hk

/-- A version refines a target that asks for none. -/
theorem evrTarget_refines {key : FilterKey} {evr : Evr} (hopen : t.constraint? = none)
    (hk : evrTarget u key evr t = some k) : k.Refines t := by
  cases t with
  | name r a =>
      obtain rfl := Option.some.inj hk
      exact .name (.of_unconstrained rfl hopen) fun _ h => h
  | provides r a =>
      obtain rfl := Option.some.inj hk
      exact .provides (.of_unconstrained rfl hopen) fun _ h => h
  | oneOf packages => exact narrowSet_refines hk
  | package _ | repo _ | all =>
      obtain rfl := Option.some.inj hk
      exact .refl _

theorem repoTarget_respects (repo : String) : Respects (repoTarget u repo) :=
  fun _ _ _ h hk => anyOf_respects (List.filter_subset _ h.resolve_subset) hk

theorem resolve_repoTarget {repo : String} (hk : repoTarget u repo t = some k) :
    k.resolve u ⊆ t.resolve u := by
  obtain ⟨rfl, -⟩ := anyOf_eq_some.mp hk
  intro id hid
  unfold JobTarget.resolve at hid
  rw [PackageSet.mem_toList, PackageSet.contains_inter, PackageSet.contains_ofList] at hid
  exact (List.mem_filter.mp hid.1.2).1

/-! ## Narrowing selections -/

/-- Whether each of some selections asks for all that one of some others does. -/
def Refine (after before : List Selection) : Prop :=
  ∀ sel ∈ after, ∃ sel' ∈ before, sel.target.Refines sel'.target

/-- The packages that selections stand for. -/
def contents (u : Universe) (selections : List Selection) : List PackageId :=
  selections.flatMap fun sel => sel.target.resolve u

theorem Refine.refl (selections : List Selection) : Refine selections selections :=
  fun sel hsel => ⟨sel, hsel, .refl _⟩

theorem Refine.trans (h : Refine after before) (h' : Refine before base) : Refine after base := by
  intro sel hsel
  obtain ⟨sel', hsel', hrefines⟩ := h sel hsel
  obtain ⟨sel'', hsel'', hrefines'⟩ := h' sel' hsel'
  exact ⟨sel'', hsel'', hrefines.trans hrefines'⟩

theorem Refine.contents_subset (h : Refine after before) : contents u after ⊆ contents u before := by
  intro id hid
  obtain ⟨sel, hsel, hmem⟩ := List.mem_flatMap.mp hid
  obtain ⟨sel', hsel', hrefines⟩ := h sel hsel
  exact List.mem_flatMap.mpr ⟨sel', hsel', hrefines.resolve_subset hmem⟩

theorem mem_narrowTargets {narrow : JobTarget → Option JobTarget} {flags : JobFlags}
    {sel : Selection} (h : sel ∈ narrowTargets narrow flags before) :
    ∃ sel' ∈ before, narrow sel'.target = some sel.target := by
  obtain ⟨sel', hsel', hmap⟩ := List.mem_filterMap.mp h
  obtain ⟨target, htarget, rfl⟩ := Option.map_eq_some_iff.mp hmap
  exact ⟨sel', hsel', htarget⟩

theorem Refine.narrowTargets {narrow : JobTarget → Option JobTarget} (h : Refine before base)
    (hnarrow : Respects narrow) (flags : JobFlags) :
    Refine (narrowTargets narrow flags before) (narrowTargets narrow flags base) := by
  intro sel hsel
  obtain ⟨sel', hsel', hnarrowed⟩ := mem_narrowTargets hsel
  obtain ⟨sel'', hsel'', hrefines⟩ := h sel' hsel'
  obtain ⟨k, hk, hfine⟩ := hnarrow _ _ _ hrefines hnarrowed
  exact ⟨⟨k, sel''.flags ||| flags⟩, List.mem_filterMap.mpr ⟨sel'', hsel'', by rw [hk]; rfl⟩, hfine⟩

/-- Narrowing refines selections if it refines the target of each of them. -/
theorem refine_narrowTargets {narrow : JobTarget → Option JobTarget} {flags : JobFlags}
    (h : ∀ sel ∈ before, ∀ k, narrow sel.target = some k → k.Refines sel.target) :
    Refine (narrowTargets narrow flags before) before := by
  intro sel hsel
  obtain ⟨sel', hsel', hnarrowed⟩ := mem_narrowTargets hsel
  exact ⟨sel', hsel', h sel' hsel' _ hnarrowed⟩

/-! ## The three steps

Whether a step can be taken is decided by its filter alone. -/

theorem narrowArch_of_ok (h : narrowArch u f before = .ok after) :
    ∃ arch, after = narrowTargets (archTarget u arch) .setarch before ∧
      ∀ selections, narrowArch u f selections =
        .ok (narrowTargets (archTarget u arch) .setarch selections) := by
  obtain ⟨arch, harch, hrest⟩ := bind_eq_ok.mp h
  have hall : ∀ selections, narrowArch u f selections =
      .ok (narrowTargets (archTarget u arch) .setarch selections) := by
    intro selections
    unfold narrowArch
    rw [harch]
    by_cases hhas : u.hasArch arch = true
    · simp [hhas, bind, Except.bind, pure, Except.pure]
    · simp [hhas, throw, throwThe, MonadExceptOf.throw, bind, Except.bind] at hrest
  exact ⟨arch, Except.ok.inj (h.symm.trans (hall before)), hall⟩

theorem narrowEvr_of_ok (h : narrowEvr u f before = .ok after) :
    ∃ evr flags, after = narrowTargets (evrTarget u f.key evr) flags before ∧
      ∀ selections, narrowEvr u f selections =
        .ok (narrowTargets (evrTarget u f.key evr) flags selections) := by
  obtain ⟨evr, hevr, hrest⟩ := bind_eq_ok.mp h
  refine ⟨evr, if f.key = .version then .setev else .setevr, (Except.ok.inj hrest).symm, ?_⟩
  intro selections
  unfold narrowEvr
  rw [hevr]
  rfl

theorem narrowRepo_of_ok (h : narrowRepo u f before = .ok after) :
    ∃ repo, after = narrowTargets (repoTarget u repo) .setrepo before ∧
      ∀ selections, narrowRepo u f selections =
        .ok (narrowTargets (repoTarget u repo) .setrepo selections) := by
  obtain ⟨repo, hrepo, hrest⟩ := bind_eq_ok.mp h
  refine ⟨repo, (Except.ok.inj hrest).symm, fun selections => ?_⟩
  unfold narrowRepo
  rw [hrepo]
  rfl

/-- Whether a step of narrowing treats all selections alike and respects refinement. -/
def Uniform (narrow : Filter → List Selection → Except SelectorError (List Selection)) : Prop :=
  ∀ f before after, narrow f before = .ok after → ∃ way flags, Respects way ∧
    after = narrowTargets way flags before ∧
      ∀ selections, narrow f selections = .ok (narrowTargets way flags selections)

theorem uniform_narrowArch : Uniform (narrowArch u) := by
  intro f before after h
  obtain ⟨arch, hstep⟩ := narrowArch_of_ok h
  exact ⟨_, _, archTarget_respects arch, hstep⟩

theorem uniform_narrowEvr : Uniform (narrowEvr u) := by
  intro f before after h
  obtain ⟨evr, flags, hstep⟩ := narrowEvr_of_ok h
  exact ⟨_, _, evrTarget_respects f.key evr, hstep⟩

theorem uniform_narrowRepo : Uniform (narrowRepo u) := by
  intro f before after h
  obtain ⟨repo, hstep⟩ := narrowRepo_of_ok h
  exact ⟨_, _, repoTarget_respects repo, hstep⟩

/-- **A step that can be taken can be taken from selections that ask for less**, and leads to
selections that ask for less. -/
theorem Refine.narrowBy {f? : Option Filter}
    {narrow : Filter → List Selection → Except SelectorError (List Selection)}
    (h : Refine before base) (hnarrow : Uniform narrow)
    (hok : narrowBy f? narrow before = .ok after) :
    ∃ after', narrowBy f? narrow base = .ok after' ∧ Refine after after' := by
  cases f? with
  | none =>
      obtain rfl := Except.ok.inj hok
      exact ⟨base, rfl, h⟩
  | some f =>
      obtain ⟨way, flags, hway, rfl, hall⟩ := hnarrow f before after hok
      exact ⟨_, hall base, h.narrowTargets hway flags⟩

/-- The three steps of narrowing in their order, from the selections that are required. -/
def Narrows (u : Universe) (arch evr reponame : Option Filter) (required after : List Selection) :
    Prop :=
  ∃ inArch inVersion, narrowBy arch (narrowArch u) required = .ok inArch ∧
    narrowBy evr (narrowEvr u) inArch = .ok inVersion ∧
      narrowBy reponame (narrowRepo u) inVersion = .ok after

variable {arch evr reponame : Option Filter} {required : List Selection}

/-- Without its architecture a selector stands for no less. -/
theorem Narrows.without_arch (h : Narrows u (some f) evr reponame required after)
    (hbase : Refine required base) (hopen : ∀ sel ∈ base, sel.target.arch? = none) :
    ∃ after', Narrows u none evr reponame base after' ∧
      contents u after ⊆ contents u after' := by
  obtain ⟨inArch, inVersion, harch, hevr, hrepo⟩ := h
  obtain ⟨arch, rfl, -⟩ := narrowArch_of_ok harch
  have hrefine : Refine (narrowTargets (archTarget u arch) .setarch required) base := by
    refine (hbase.narrowTargets (archTarget_respects arch) .setarch).trans ?_
    exact refine_narrowTargets fun sel hsel _ => archTarget_refines (hopen sel hsel)
  obtain ⟨inVersion', hevr', hrefine⟩ := hrefine.narrowBy uniform_narrowEvr hevr
  obtain ⟨after', hrepo', hrefine⟩ := hrefine.narrowBy uniform_narrowRepo hrepo
  exact ⟨after', ⟨base, inVersion', rfl, hevr', hrepo'⟩, hrefine.contents_subset⟩

/-- Without its version a selector stands for no less, if it asks for no other. -/
theorem Narrows.without_evr (h : Narrows u arch (some f) reponame required after)
    (hbase : Refine required base) (hopen : ∀ sel ∈ base, sel.target.constraint? = none) :
    ∃ after', Narrows u arch none reponame base after' ∧
      contents u after ⊆ contents u after' := by
  obtain ⟨inArch, inVersion, harch, hevr, hrepo⟩ := h
  obtain ⟨inArch', harch', hrefine⟩ := hbase.narrowBy uniform_narrowArch harch
  -- no constraint comes in with the architecture
  have hopen' : ∀ sel ∈ inArch', sel.target.constraint? = none := by
    rcases narrowBy_eq_ok.mp harch' with ⟨-, rfl⟩ | ⟨f', -, hstep⟩
    · exact hopen
    · obtain ⟨arch, rfl, -⟩ := narrowArch_of_ok hstep
      intro sel hsel
      obtain ⟨sel', hsel', hnarrowed⟩ := mem_narrowTargets hsel
      rw [constraint?_archTarget hnarrowed]
      exact hopen sel' hsel'
  obtain ⟨evr, flags, rfl, -⟩ := narrowEvr_of_ok hevr
  have hrefine : Refine (narrowTargets (evrTarget u f.key evr) flags inArch) inArch' := by
    refine (hrefine.narrowTargets (evrTarget_respects f.key evr) flags).trans ?_
    exact refine_narrowTargets fun sel hsel _ => evrTarget_refines (hopen' sel hsel)
  obtain ⟨after', hrepo', hrefine⟩ := hrefine.narrowBy uniform_narrowRepo hrepo
  exact ⟨after', ⟨inArch', inArch', harch', rfl, hrepo'⟩, hrefine.contents_subset⟩

/-- Without its repository a selector stands for no less. -/
theorem Narrows.without_reponame (h : Narrows u arch evr (some f) required after)
    (hbase : Refine required base) :
    ∃ after', Narrows u arch evr none base after' ∧ contents u after ⊆ contents u after' := by
  obtain ⟨inArch, inVersion, harch, hevr, hrepo⟩ := h
  obtain ⟨inArch', harch', hrefine⟩ := hbase.narrowBy uniform_narrowArch harch
  obtain ⟨inVersion', hevr', hrefine⟩ := hrefine.narrowBy uniform_narrowEvr hevr
  obtain ⟨repo, rfl, -⟩ := narrowRepo_of_ok hrepo
  refine ⟨inVersion', ⟨inArch', inVersion', harch', hevr', rfl⟩, ?_⟩
  intro id hid
  refine hrefine.contents_subset ?_
  obtain ⟨sel, hsel, hmem⟩ := List.mem_flatMap.mp hid
  obtain ⟨sel', hsel', hnarrowed⟩ := mem_narrowTargets hsel
  exact List.mem_flatMap.mpr ⟨sel', hsel', resolve_repoTarget hnarrowed hmem⟩

end Selector

/-! ## What a selector is about -/

namespace Filter

/-- The relation that a filter asks for, if it gives the text of one. -/
def relation? (f : Filter) : Option Relation :=
  if f.cmp = .exact then f.value.toOption.bind fun value => (Relation.parse value).toOption
  else none

/-- A filter that asks for the name of its relation, whatever the version. -/
def unconstrained (f : Filter) : Filter :=
  match f.relation? with
  | some r => { f with values := [r.name] }
  | none => f

variable {f : Filter} {r : Relation}

theorem relation?_eq_some : f.relation? = some r ↔
    f.cmp = .exact ∧ ∃ value, f.value = .ok value ∧ Relation.parse value = .ok r := by
  have hok : ∀ {ε α : Type} {x : Except ε α} {a : α}, x.toOption = some a ↔ x = .ok a := by
    intro ε α x a
    cases x <;> simp [Except.toOption]
  unfold relation?
  by_cases hcmp : f.cmp = .exact
  · rw [if_pos hcmp, Option.bind_eq_some_iff]
    simp only [hok]
    exact (and_iff_right hcmp).symm
  · rw [if_neg hcmp]
    exact iff_of_false (by simp) fun h => hcmp h.1

theorem relation?_unconstrained (h : f.relation? = some r) :
    f.unconstrained.relation? = some (.ofName r.name) := by
  obtain ⟨hcmp, value, -, hparse⟩ := relation?_eq_some.mp h
  unfold unconstrained
  rw [h]
  exact relation?_eq_some.mpr ⟨hcmp, r.name, rfl, Relation.parse_name hparse⟩

end Filter

namespace Selector

variable {u : Universe} {job : Job} {s s' : Selector} {f : Filter} {required : List Selection}
  {sel : Selection}

/-- The selector with the constraint taken off the provide that it is about. -/
def unconstrained (s : Selector) : Selector :=
  { s with provides := s.provides.map Filter.unconstrained }

/-- Whether a selector is about a provide of certain versions. -/
def IsConstrained (s : Selector) : Prop :=
  ∃ f r, s.provides = some f ∧ f.relation? = some r ∧ r.isVersioned = true

theorem selectProvides_of_relation? {r : Relation} (h : f.relation? = some r) :
    selectProvides u job f = .ok [{ target := .ofProvide r }] := by
  obtain ⟨hcmp, value, hvalue, hparse⟩ := Filter.relation?_eq_some.mp h
  refine bind_eq_ok.mpr ⟨value, hvalue, ?_⟩
  rw [if_pos hcmp, hparse]
  rfl

theorem target_of_mem_selectName (h : selectName u job f = .ok required) (hsel : sel ∈ required) :
    ∃ name, sel.target = .ofName name := by
  obtain ⟨name, -, h⟩ := bind_eq_ok.mp h
  split at h
  · obtain rfl := Except.ok.inj h
    split at hsel
    · exact absurd hsel List.not_mem_nil
    · exact ⟨name, by rw [List.mem_singleton.mp hsel]⟩
  · split at h
    · obtain rfl := Except.ok.inj h
      obtain ⟨target, htarget, rfl⟩ := List.mem_map.mp hsel
      obtain ⟨name, -, hname⟩ := List.mem_map.mp (List.mem_filter.mp htarget).1
      exact ⟨name, hname.symm⟩
    · exact absurd h throw_ne_ok

theorem target_of_mem_selectFile (h : selectFile u f = .ok required) (hsel : sel ∈ required) :
    ∃ packages, sel.target = .oneOf packages := by
  obtain ⟨path, -, h⟩ := bind_eq_ok.mp h
  extract_lets _ _ owners at h
  split at h
  · obtain ⟨_, hthrow, -⟩ := bind_eq_ok.mp h
    exact absurd hthrow throw_ne_ok
  · obtain rfl := Except.ok.inj h
    exact ⟨.ofList owners, by rw [List.mem_singleton.mp hsel]⟩

theorem target_of_mem_selectProvides (h : selectProvides u job f = .ok required)
    (hsel : sel ∈ required) :
    ∃ r, sel.target = .ofProvide r ∧ (r.isVersioned = true → f.relation? = some r) := by
  obtain ⟨value, hvalue, h⟩ := bind_eq_ok.mp h
  split at h
  · rename_i hcmp
    split at h
    · rename_i r hparse
      obtain rfl := Except.ok.inj h
      refine ⟨r, by rw [List.mem_singleton.mp hsel], fun _ => ?_⟩
      exact Filter.relation?_eq_some.mpr ⟨hcmp, value, hvalue, hparse⟩
    · exact absurd h throw_ne_ok
  · split at h
    · obtain rfl := Except.ok.inj h
      obtain ⟨target, htarget, rfl⟩ := List.mem_map.mp hsel
      obtain ⟨name, -, hname⟩ := List.mem_map.mp (List.mem_filter.mp htarget).1
      exact ⟨.ofName name, hname.symm, fun h => absurd h (by simp [Relation.isVersioned, Relation.ofName])⟩
    · exact absurd h throw_ne_ok

/-- Without its constraint a provide is looked for as well, and asked less of. -/
theorem selectProvides_unconstrained (h : selectProvides u job f = .ok required) :
    ∃ base, selectProvides u job f.unconstrained = .ok base ∧ Refine required base := by
  cases hr : f.relation? with
  | none =>
      have hsame : f.unconstrained = f := by
        unfold Filter.unconstrained
        rw [hr]
      rw [hsame]
      exact ⟨required, h, .refl required⟩
  | some r =>
      rw [selectProvides_of_relation? hr] at h
      obtain rfl := Except.ok.inj h
      refine ⟨_, selectProvides_of_relation? (Filter.relation?_unconstrained hr), ?_⟩
      intro sel hsel
      rw [List.mem_singleton] at hsel
      refine ⟨_, List.mem_singleton_self _, ?_⟩
      rw [hsel]
      exact .provides (.of_unconstrained rfl rfl) fun _ h => h

theorem selectRequired_unconstrained (h : selectRequired u job s = .ok required) :
    ∃ base, selectRequired u job s.unconstrained = .ok base ∧ Refine required base := by
  unfold selectRequired at h ⊢
  unfold unconstrained
  dsimp only
  split at h
  · rename_i pkgs hpkgs
    rw [hpkgs]
    exact ⟨required, h, .refl required⟩
  · rename_i f hpkgs hname
    rw [hpkgs, hname]
    exact ⟨required, h, .refl required⟩
  · rename_i f hpkgs hname hfile
    rw [hpkgs, hname, hfile]
    exact ⟨required, h, .refl required⟩
  · rename_i f hpkgs hname hfile hprovides
    rw [hpkgs, hname, hfile, hprovides]
    exact selectProvides_unconstrained h
  · rename_i hpkgs hname hfile hprovides
    rw [hpkgs, hname, hfile, hprovides]
    exact ⟨required, h, .refl required⟩

/-- The target of a required selection is open, but for the constraint of a provide. -/
theorem open_of_mem_selectRequired (h : selectRequired u job s = .ok required)
    (hsel : sel ∈ required) : sel.target.arch? = none ∧
      (¬s.IsConstrained → sel.target.constraint? = none) := by
  unfold selectRequired at h
  split at h
  · rename_i pkgs _ _ _ _
    obtain rfl := Except.ok.inj h
    split at hsel
    · exact absurd hsel List.not_mem_nil
    · rw [List.mem_singleton.mp hsel]
      exact ⟨rfl, fun _ => rfl⟩
  · obtain ⟨name, htarget⟩ := target_of_mem_selectName h hsel
    rw [htarget]
    exact ⟨rfl, fun _ => rfl⟩
  · obtain ⟨packages, htarget⟩ := target_of_mem_selectFile h hsel
    rw [htarget]
    exact ⟨rfl, fun _ => rfl⟩
  · rename_i hprovides
    obtain ⟨r, htarget, hr⟩ := target_of_mem_selectProvides h hsel
    rw [htarget]
    refine ⟨rfl, fun hopen => Option.not_isSome_iff_eq_none.mp fun hsome => ?_⟩
    exact hopen ⟨_, r, hprovides, hr hsome, hsome⟩
  · obtain rfl := Except.ok.inj h
    exact absurd hsel List.not_mem_nil

theorem not_isConstrained_unconstrained (s : Selector) : ¬s.unconstrained.IsConstrained := by
  intro h
  obtain ⟨f', r, hprovides, hr, hversioned⟩ := h
  obtain ⟨f, -, rfl⟩ := Option.map_eq_some_iff.mp hprovides
  cases hf : f.relation? with
  | none =>
      unfold Filter.unconstrained at hr
      rw [hf] at hr
      exact absurd (hf.symm.trans hr) (by simp)
  | some r' =>
      rw [Filter.relation?_unconstrained hf] at hr
      obtain rfl := Option.some.inj hr
      exact absurd hversioned (by simp [Relation.isVersioned, Relation.ofName])

/-! ## Adding a filter -/

/-- The filter of a dimension. -/
def filter? (s : Selector) : FilterKey → Option Filter
  | .name => s.name
  | .evr | .version => s.evr
  | .arch => s.arch
  | .provides => s.provides
  | .file => s.file
  | .reponame => s.reponame

/-- Whether a selector asks for no more than another one, with the same filters to narrow it. -/
structure Eases (u : Universe) (base s : Selector) : Prop where
  arch : base.arch = s.arch
  evr : base.evr = s.evr
  reponame : base.reponame = s.reponame
  hasRequiredFilter : base.hasRequiredFilter = s.hasRequiredFilter
  selectRequired : ∀ required, selectRequired u [] s = .ok required →
    ∃ easier, selectRequired u [] base = .ok easier ∧ Refine required easier

variable {base : Selector} {key : FilterKey} {cmp : Comparison} {value : String}

theorem Eases.refl (u : Universe) (s : Selector) : Eases u s s :=
  ⟨rfl, rfl, rfl, rfl, fun required h => ⟨required, h, .refl required⟩⟩

theorem eases_unconstrained (u : Universe) (s : Selector) : Eases u s.unconstrained s := by
  refine ⟨rfl, rfl, rfl, ?_, fun _ h => selectRequired_unconstrained h⟩
  unfold hasRequiredFilter unconstrained
  dsimp only
  rw [Option.isSome_map]

theorem hasOptionalFilter_place (s : Selector) (cmp : Comparison) (value : String)
    (hkey : key.isRequired = false) : (s.place key cmp value).hasOptionalFilter = true := by
  have hextend : ∀ slot, (extend slot key cmp value).isSome = true := by
    intro slot
    cases slot <;> rfl
  unfold hasOptionalFilter place
  cases key with
  | name | provides | file => exact absurd hkey (by decide)
  | arch | evr | version | reponame => simp [hextend]

theorem selectRequired_place (hkey : key.isRequired = false) :
    selectRequired u job (s.place key cmp value) = selectRequired u job s := by
  cases key with
  | name | provides | file => exact absurd hkey (by decide)
  | arch | evr | version | reponame => rfl

theorem hasRequiredFilter_place (hkey : key.isRequired = false) :
    (s.place key cmp value).hasRequiredFilter = s.hasRequiredFilter := by
  cases key with
  | name | provides | file => exact absurd hkey (by decide)
  | arch | evr | version | reponame => rfl

/-- The steps of narrowing without the one of a filter that is added. -/
theorem Narrows.without_place (hkey : key.isRequired = false) (hfree : s.filter? key = none)
    {easier after : List Selection}
    (h : Narrows u (s.place key cmp value).arch (s.place key cmp value).evr
      (s.place key cmp value).reponame required after)
    (hrefine : Refine required easier) (harch : ∀ sel ∈ easier, sel.target.arch? = none)
    (hevr : key = .evr ∨ key = .version → ∀ sel ∈ easier, sel.target.constraint? = none) :
    ∃ after', Narrows u s.arch s.evr s.reponame easier after' ∧
      contents u after ⊆ contents u after' := by
  unfold place extend at h
  cases key with
  | name | provides | file => exact absurd hkey (by decide)
  | arch =>
      have hnone : s.arch = none := hfree
      rw [hnone] at h ⊢
      exact h.without_arch hrefine harch
  | evr =>
      have hnone : s.evr = none := hfree
      rw [hnone] at h ⊢
      exact h.without_evr hrefine (hevr (.inl rfl))
  | version =>
      have hnone : s.evr = none := hfree
      rw [hnone] at h ⊢
      exact h.without_evr hrefine (hevr (.inr rfl))
  | reponame =>
      have hnone : s.reponame = none := hfree
      rw [hnone] at h ⊢
      exact h.without_reponame hrefine

/-- **What is matched with one filter more** is among what is matched without it by whatever asks
for no more, provided that a version does not meet with a constraint. -/
theorem Eases.matching_of_place (h : Eases u base s) (hkey : key.isRequired = false)
    (hfree : s.filter? key = none)
    (hopen : key = .evr ∨ key = .version → ¬base.IsConstrained) {narrowed : PackageSet}
    (hok : (s.place key cmp value).matching u = .ok narrowed) :
    ∃ packages, base.matching u = .ok packages ∧ ∀ id ∈ narrowed, id ∈ packages := by
  obtain ⟨after, hselections, hnarrowed⟩ := bind_eq_ok.mp hok
  obtain rfl := Except.ok.inj hnarrowed
  have hoptional := s.hasOptionalFilter_place cmp value hkey
  rcases selections_eq_ok.mp hselections with
    ⟨hrequired, required, inArch, inVersion, hselect, hsteps⟩ | ⟨-, hnone, -⟩
  · rw [selectRequired_place hkey] at hselect
    rw [hasRequiredFilter_place hkey, ← h.hasRequiredFilter] at hrequired
    obtain ⟨easier, heasier, hrefine⟩ := h.selectRequired required hselect
    have hnarrows := Narrows.without_place hkey hfree ⟨inArch, inVersion, hsteps⟩ hrefine
      (fun sel hsel => (open_of_mem_selectRequired heasier hsel).1)
      (fun hversion sel hsel => (open_of_mem_selectRequired heasier hsel).2 (hopen hversion))
    rw [← h.arch, ← h.evr, ← h.reponame] at hnarrows
    obtain ⟨after', ⟨inArch', inVersion', hsteps'⟩, hsubset⟩ := hnarrows
    have hselections' : base.selections u [] = .ok after' :=
      selections_eq_ok.mpr (.inl ⟨hrequired, easier, inArch', inVersion', heasier, hsteps'⟩)
    refine ⟨_, bind_eq_ok.mpr ⟨after', hselections', rfl⟩, fun id hid => ?_⟩
    obtain ⟨hpos, hmem⟩ := PackageSet.contains_ofList.mp hid
    exact PackageSet.contains_ofList.mpr ⟨hpos, hsubset hmem⟩
  · -- a selector with a filter that narrows is not empty
    exact absurd (hoptional.symm.trans hnone) (by decide)

end Selector

/--
**A filter that is added narrows a selector.**

If a selector can be put to use with one more filter for architecture, version or repository, it can
be put to use without it, and then stands for no less. The one exception is a version that is added
to a provide of certain versions: there it takes the place of these, and what is left is among what
the selector stands for without them.
-/
theorem matching_subset_of_set (u : Universe) (s s' : Selector) (key : FilterKey) (cmp : Comparison)
    (value : String) (narrowed : PackageSet) (hkey : key.isRequired = false)
    (hfree : s.filter? key = none) (hset : s.set key cmp value = .ok s')
    (hmatching : s'.matching u = .ok narrowed) :
    (¬((key = .evr ∨ key = .version) ∧ s.IsConstrained) →
      ∃ packages, s.matching u = .ok packages ∧ ∀ id ∈ narrowed, id ∈ packages) ∧
    ∃ packages, s.unconstrained.matching u = .ok packages ∧ ∀ id ∈ narrowed, id ∈ packages := by
  have hplace : s.set key cmp value = .ok (s.place key cmp value) := if_neg (by rw [hkey]; decide)
  obtain rfl := Except.ok.inj (hplace.symm.trans hset)
  refine ⟨fun hopen => ?_, ?_⟩
  · exact (Selector.Eases.refl u s).matching_of_place hkey hfree (fun hversion hconstrained =>
      hopen ⟨hversion, hconstrained⟩) hmatching
  · exact (Selector.eases_unconstrained u s).matching_of_place hkey hfree
      (fun _ => s.not_isConstrained_unconstrained) hmatching

/-- Two versions of a library, both of which are available. -/
def twoLibs : Universe :=
  .ofCatalog
    { packages :=
        #[{ name := "lib", evr := { epoch := 0, version := "1", release := some "1" }
            arch := "x86_64" },
          { name := "lib", evr := { epoch := 0, version := "2", release := some "1" }
            arch := "x86_64" }]
      repos := #[{ name := "available", priority := defaultPriority, installed := false }] }

/-- Whatever provides the library from its second version on. -/
def newerLib : Selector :=
  { provides := some { key := .provides, cmp := .exact, values := ["lib >= 2"] } }

/-- The numbers of the packages that a selector stands for. -/
def Selector.matchingIds (s : Selector) (u : Universe) : Except SelectorError (List PackageId) := do
  let packages ← s.matching u
  return packages.toList

theorem Selector.exists_matching {s : Selector} {u : Universe} {ids : List PackageId}
    (h : s.matchingIds u = .ok ids) :
    ∃ packages, s.matching u = .ok packages ∧ ∀ id, id ∈ packages ↔ id ∈ ids := by
  obtain ⟨packages, hpackages, hids⟩ := bind_eq_ok.mp h
  obtain rfl := Except.ok.inj hids
  exact ⟨packages, hpackages, fun id => PackageSet.mem_toList.symm⟩

/-- The newer library does not stand for the older one, but does with the older version added. -/
theorem matching_newerLib_widened :
    newerLib.filter? .evr = none ∧
    ∃ s' packages narrowed, newerLib.set .evr .exact "1-1" = .ok s' ∧
      newerLib.matching twoLibs = .ok packages ∧ s'.matching twoLibs = .ok narrowed ∧
      (1 : PackageId) ∈ narrowed ∧ ¬(1 : PackageId) ∈ packages := by
  have hbefore : newerLib.matchingIds twoLibs = .ok [2] := by decide +kernel
  have hafter : (newerLib.place .evr .exact "1-1").matchingIds twoLibs = .ok [1] := by decide +kernel
  obtain ⟨packages, hpackages, hmem⟩ := Selector.exists_matching hbefore
  obtain ⟨narrowed, hnarrowed, hmem'⟩ := Selector.exists_matching hafter
  refine ⟨rfl, _, packages, narrowed, rfl, hpackages, hnarrowed, (hmem' 1).mpr (by decide), ?_⟩
  exact fun h => absurd ((hmem 1).mp h) (by decide)

/-- The newer library of one architecture is the newer library; of the older version it is at least
the library. -/
theorem matching_subset_of_set_newerLib :
    (∃ packages narrowed, newerLib.matching twoLibs = .ok packages ∧
      (newerLib.place .arch .exact "x86_64").matching twoLibs = .ok narrowed ∧
      (2 : PackageId) ∈ narrowed ∧ ∀ id ∈ narrowed, id ∈ packages) ∧
    ∃ packages narrowed, newerLib.unconstrained.matching twoLibs = .ok packages ∧
      (newerLib.place .evr .exact "1-1").matching twoLibs = .ok narrowed ∧
      (1 : PackageId) ∈ narrowed ∧ ∀ id ∈ narrowed, id ∈ packages := by
  have harch : (newerLib.place .arch .exact "x86_64").matchingIds twoLibs = .ok [2] := by
    decide +kernel
  have hevr : (newerLib.place .evr .exact "1-1").matchingIds twoLibs = .ok [1] := by decide +kernel
  obtain ⟨inArch, hinArch, hmem⟩ := Selector.exists_matching harch
  obtain ⟨older, holder, hmem'⟩ := Selector.exists_matching hevr
  have hnotVersion : ¬((FilterKey.arch = .evr ∨ FilterKey.arch = .version) ∧
      newerLib.IsConstrained) := fun h => absurd h.1 (by decide)
  obtain ⟨packages, hpackages, hsubset⟩ := (matching_subset_of_set twoLibs newerLib _ .arch .exact
    "x86_64" inArch rfl rfl rfl hinArch).1 hnotVersion
  obtain ⟨libs, hlibs, hsubset'⟩ := (matching_subset_of_set twoLibs newerLib _ .evr .exact
    "1-1" older rfl rfl rfl holder).2
  exact ⟨⟨packages, inArch, hpackages, hinArch, (hmem 2).mpr (by decide), hsubset⟩,
    libs, older, hlibs, holder, (hmem' 1).mpr (by decide), hsubset'⟩

end DepSolver
