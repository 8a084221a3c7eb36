import DepSolver.Proofs.Transaction.Changes

/-!
# What the steps of a transaction say

Each step has one of three origins: a package that comes in, a package whose place is taken by one
that comes in, or a package that goes out and is not replaced. A package goes out with one
replacement at most, and comes in or goes out but not both, so no two steps are about one package
and a step is found by the number of its package.

What replaces a package has its name, or obsoletes it and has another name. So the kind of a step
tells whether the package left its place to one of its own name.
-/

namespace DepSolver

namespace Transaction

variable {u : Universe} {kept multiversion : PackageSet} {id : PackageId} {p : Package}

/-- The packages whose place a package takes. -/
def replacedBy (u : Universe) (kept multiversion : PackageSet) (id : PackageId) : List Outgoing :=
  (outgoingOf u kept multiversion).filter fun o => o.replacement.any fun r => r.1 == id

/-- **Where a step comes from.** -/
inductive Origin (u : Universe) (kept multiversion : PackageSet) : Step → Prop where
  /-- A package comes in. -/
  | incoming {id : PackageId} {p : Package} (hin : (id, p) ∈ incomingOf u kept) :
      Origin u kept multiversion
        { id
          kind := incomingKind (multiversion.contains id) p (replacedBy u kept multiversion id)
          related := (replacedBy u kept multiversion id).map (·.id) }
  /-- A package goes out, and one that comes in takes its place. -/
  | replaced {o : Outgoing} {id : PackageId} {p : Package} {obsoleting : Bool}
      (hout : o ∈ outgoingOf u kept multiversion) (hin : (id, p) ∈ incomingOf u kept)
      (hreplacement : o.replacement = some (id, obsoleting)) :
      Origin u kept multiversion (replacedStep id p o)
  /-- A package goes out, and nothing takes its place. -/
  | erased {o : Outgoing} (hout : o ∈ outgoingOf u kept multiversion)
      (hreplacement : o.replacement = none) :
      Origin u kept multiversion { id := o.id, kind := .erase, related := [] }

/-! ## Packages that go out -/

/-- **What is known of a package that goes out.** -/
structure Outgoing.Goes (u : Universe) (kept multiversion : PackageSet) (o : Outgoing) : Prop where
  installed : u.isInstalled o.id = true
  unkept : kept.contains o.id = false
  package : u.package? o.id = some o.package
  replacement : o.replacement = replacement? multiversion (incomingOf u kept) o.package

theorem mem_outgoingOf {o : Outgoing} :
    o ∈ outgoingOf u kept multiversion ↔ o.Goes u kept multiversion := by
  unfold outgoingOf
  rw [List.mem_map]
  refine ⟨?_, ?_⟩
  · intro h
    obtain ⟨⟨id, p⟩, hmem, rfl⟩ := h
    obtain ⟨hout, hp⟩ := mem_packagesOf.mp hmem
    obtain ⟨hinstalled, hunkept⟩ := PackageSet.contains_diff.mp hout
    exact ⟨Universe.installed_contains_iff.mp hinstalled, hunkept, hp, rfl⟩
  · intro h
    obtain ⟨hinstalled, hunkept, hp, hreplacement⟩ := h
    have hout : (u.installed.diff kept).contains o.id = true :=
      PackageSet.contains_diff.mpr ⟨Universe.installed_contains_iff.mpr hinstalled, hunkept⟩
    refine ⟨(o.id, o.package), mem_packagesOf.mpr ⟨hout, hp⟩, ?_⟩
    rw [← hreplacement]

theorem eq_of_mem_outgoingOf {o o' : Outgoing} (h : o ∈ outgoingOf u kept multiversion)
    (h' : o' ∈ outgoingOf u kept multiversion) (hid : o.id = o'.id) : o = o' := by
  obtain ⟨-, -, hp, hreplacement⟩ := mem_outgoingOf.mp h
  obtain ⟨-, -, hp', hreplacement'⟩ := mem_outgoingOf.mp h'
  rw [hid, hp'] at hp
  obtain ⟨oid, package, replacement⟩ := o
  obtain ⟨oid', package', replacement'⟩ := o'
  obtain rfl : package' = package := Option.some.inj hp
  obtain rfl : oid = oid' := hid
  rw [show replacement = replacement' from hreplacement.trans hreplacement'.symm]

theorem mem_replacedBy {o : Outgoing} : o ∈ replacedBy u kept multiversion id ↔
    o ∈ outgoingOf u kept multiversion ∧ ∃ obsoleting, o.replacement = some (id, obsoleting) := by
  unfold replacedBy
  rw [List.mem_filter, Option.any_eq_true]
  refine and_congr_right fun _ => ⟨?_, ?_⟩
  · intro h
    obtain ⟨⟨x, b⟩, hr, hx⟩ := h
    exact ⟨b, by rw [hr, ← beq_iff_eq.mp hx]⟩
  · intro h
    obtain ⟨b, hr⟩ := h
    exact ⟨_, hr, beq_self_eq_true id⟩

/-- **What replaces a package** has its name, or obsoletes it. -/
theorem replacement?_eq_some {incoming : List (PackageId × Package)} {x : PackageId}
    {obsoleting : Bool} (h : replacement? multiversion incoming p = some (x, obsoleting)) :
    ∃ q, (x, q) ∈ incoming ∧
      if obsoleting then q.obsoletesPackage p = true else q.name = p.name := by
  unfold replacement? at h
  dsimp only at h
  split at h
  · rename_i new hnew
    obtain ⟨rfl, rfl⟩ := Prod.mk.inj (Option.some.inj h)
    obtain ⟨hmem, hsame⟩ := List.mem_filter.mp (mem_of_greatestBy? hnew)
    rw [Bool.and_eq_true, Bool.and_eq_true, beq_iff_eq] at hsame
    exact ⟨new.2, hmem, hsame.1.1⟩
  · obtain ⟨new, hfind, heq⟩ := Option.map_eq_some_iff.mp h
    obtain ⟨rfl, rfl⟩ := Prod.mk.inj heq
    have hobsoletes := List.find?_some hfind
    exact ⟨new.2, List.mem_of_find?_eq_some hfind, hobsoletes⟩

/-- A replacement that comes in obsoletes exactly what has another name. -/
theorem Outgoing.Goes.name_eq_iff {o : Outgoing} (h : o.Goes u kept multiversion) {x : PackageId}
    {obsoleting : Bool} (hreplacement : o.replacement = some (x, obsoleting)) :
    ∃ q, (x, q) ∈ incomingOf u kept ∧ (q.name = o.package.name ↔ obsoleting = false) := by
  rw [h.replacement] at hreplacement
  obtain ⟨q, hin, hcond⟩ := replacement?_eq_some hreplacement
  refine ⟨q, hin, ?_⟩
  cases obsoleting with
  | false => exact iff_of_true hcond rfl
  | true =>
      have hne : q.name ≠ o.package.name := by
        have hobsoletes : q.obsoletesPackage o.package = true := hcond
        unfold Package.obsoletesPackage at hobsoletes
        exact bne_iff_ne.mp (Bool.and_eq_true_iff.mp hobsoletes).1
      exact iff_of_false hne (by simp)

/-! ## Steps by their origin -/

theorem mem_steps_iff {step : Step} :
    step ∈ (ofKept u kept multiversion).steps ↔ Origin u kept multiversion step := by
  rw [steps_ofKept, List.mem_append, List.mem_flatMap, List.mem_map]
  refine ⟨?_, ?_⟩
  · intro h
    rcases h with ⟨⟨id, p⟩, hin, hstep⟩ | ⟨o, ho, rfl⟩
    · rcases List.mem_cons.mp hstep with rfl | hstep
      · exact .incoming hin
      · obtain ⟨o, ho, rfl⟩ := List.mem_map.mp hstep
        obtain ⟨hout, obsoleting, hreplacement⟩ := mem_replacedBy.mp ho
        exact .replaced hout hin hreplacement
    · obtain ⟨hout, hnone⟩ := List.mem_filter.mp ho
      exact .erased hout (Option.isNone_iff_eq_none.mp hnone)
  · intro h
    cases h with
    | incoming hin => exact .inl ⟨_, hin, List.mem_cons_self ..⟩
    | replaced hout hin hreplacement =>
        refine .inl ⟨_, hin, List.mem_cons_of_mem _ (List.mem_map_of_mem ?_)⟩
        exact mem_replacedBy.mpr ⟨hout, _, hreplacement⟩
    | erased hout hnone =>
        exact .inr ⟨_, List.mem_filter.mpr ⟨hout, Option.isNone_iff_eq_none.mpr hnone⟩, rfl⟩

/-- A package that comes in has the kind of one that does. -/
theorem isIncoming_incomingKind (isMultiversion : Bool) (new : Package)
    (replaces : List Outgoing) : (incomingKind isMultiversion new replaces).isIncoming = true := by
  unfold incomingKind
  split
  · split <;> rfl
  · split
    · rfl
    · split <;> rfl

theorem isIncoming_replacedStep (id : PackageId) (new : Package) (o : Outgoing) :
    (replacedStep id new o).isIncoming = false := by
  unfold replacedStep Step.isIncoming
  dsimp only
  split <;> rfl

/-- **No two steps are about one package.** -/
theorem Origin.eq_of_id {step step' : Step} (h : Origin u kept multiversion step)
    (h' : Origin u kept multiversion step') (hid : step.id = step'.id) : step = step' := by
  -- a package that comes in does not go out
  have hapart : ∀ {x : PackageId} {q : Package} {o : Outgoing}, (x, q) ∈ incomingOf u kept →
      o ∈ outgoingOf u kept multiversion → x ≠ o.id := by
    intro x q o hin hout he
    have hnot := (mem_incomingOf.mp hin).1.2
    rw [he, (mem_outgoingOf.mp hout).installed] at hnot
    exact absurd hnot (by simp)
  have hsame : ∀ {x : PackageId} {q q' : Package}, (x, q) ∈ incomingOf u kept →
      (x, q') ∈ incomingOf u kept → q = q' := by
    intro x q q' hin hin'
    exact Option.some.inj ((mem_incomingOf.mp hin).2.symm.trans (mem_incomingOf.mp hin').2)
  cases h with
  | incoming hin =>
      cases h' with
      | incoming hin' =>
          obtain rfl := hid
          rw [hsame hin hin']
      | replaced hout' => exact absurd hid (hapart hin hout')
      | erased hout' => exact absurd hid (hapart hin hout')
  | replaced hout hin hreplacement =>
      cases h' with
      | incoming hin' => exact absurd hid.symm (hapart hin' hout)
      | replaced hout' hin' hreplacement' =>
          obtain rfl := eq_of_mem_outgoingOf hout hout' hid
          rw [hreplacement] at hreplacement'
          obtain ⟨rfl, -⟩ := Prod.mk.inj (Option.some.inj hreplacement')
          rw [hsame hin hin']
      | erased hout' hnone =>
          obtain rfl := eq_of_mem_outgoingOf hout hout' hid
          rw [hreplacement] at hnone
          exact absurd hnone (by simp)
  | erased hout hnone =>
      cases h' with
      | incoming hin' => exact absurd hid.symm (hapart hin' hout)
      | replaced hout' _ hreplacement' =>
          obtain rfl := eq_of_mem_outgoingOf hout hout' hid
          rw [hnone] at hreplacement'
          exact absurd hreplacement' (by simp)
      | erased hout' =>
          obtain rfl := eq_of_mem_outgoingOf hout hout' hid
          rfl

/-- **The step of a package is found.** -/
theorem step?_of_mem {step : Step} (h : step ∈ (ofKept u kept multiversion).steps) :
    (ofKept u kept multiversion).step? step.id = some step := by
  unfold step?
  cases hfind : (ofKept u kept multiversion).steps.find? fun s => s.id == step.id with
  | none => exact absurd (beq_self_eq_true step.id) (List.find?_eq_none.mp hfind step h)
  | some found =>
      have hmem := mem_steps_iff.mp (List.mem_of_find?_eq_some hfind)
      have hid := List.find?_some hfind
      exact congrArg some (hmem.eq_of_id (mem_steps_iff.mp h) (beq_iff_eq.mp hid))

/-- The packages whose steps are called one of some names. -/
theorem mem_ofTypes {mode : TransactionMode} {types : List StepType} :
    id ∈ (ofKept u kept multiversion).ofTypes mode types ↔
      ∃ step ∈ (ofKept u kept multiversion).steps, step.id = id ∧ step.kind.type mode ∈ types := by
  have htype : ∀ {step : Step}, step ∈ (ofKept u kept multiversion).steps →
      (ofKept u kept multiversion).typeOf mode step.id = step.kind.type mode := by
    intro step hstep
    unfold typeOf
    rw [step?_of_mem hstep]
  unfold ofTypes
  rw [List.mem_filter, List.mem_map, List.contains_iff_mem]
  refine ⟨?_, ?_⟩
  · intro h
    obtain ⟨⟨step, hstep, rfl⟩, hmem⟩ := h
    rw [htype hstep] at hmem
    exact ⟨step, hstep, rfl, hmem⟩
  · intro h
    obtain ⟨step, hstep, rfl, hmem⟩ := h
    rw [htype hstep]
    exact ⟨⟨step, hstep, rfl⟩, hmem⟩

/-! ## Left to a package of the same name -/

/-- **Whether a transaction pairs a package with one of its name that comes in.** -/
def ReplacesByName (u : Universe) (t : Transaction) (id : PackageId) : Prop :=
  ∃ step ∈ t.steps, step.isIncoming = true ∧ id ∈ step.related ∧
    ∃ new old, u.package? step.id = some new ∧ u.package? id = some old ∧ new.name = old.name

/-- A package that goes out is paired so if its replacement does not obsolete it. -/
theorem replacesByName_iff {o : Outgoing} (hout : o ∈ outgoingOf u kept multiversion) :
    (ofKept u kept multiversion).ReplacesByName u o.id ↔
      ∃ x, o.replacement = some (x, false) := by
  have hgoes := mem_outgoingOf.mp hout
  refine ⟨?_, ?_⟩
  · intro h
    obtain ⟨step, hstep, hincoming, hrelated, new, old, hnew, hold, hname⟩ := h
    cases mem_steps_iff.mp hstep with
    | @incoming x q hin =>
        obtain ⟨o', ho', hid⟩ := List.mem_map.mp hrelated
        obtain ⟨hout', obsoleting, hreplacement⟩ := mem_replacedBy.mp ho'
        obtain rfl := eq_of_mem_outgoingOf hout' hout hid
        obtain ⟨q', hin', hiff⟩ := hgoes.name_eq_iff hreplacement
        -- both names are those of the packages of these numbers
        have hq' : q' = new := Option.some.inj ((mem_incomingOf.mp hin').2.symm.trans hnew)
        have hold' : o'.package = old := Option.some.inj (hgoes.package.symm.trans hold)
        rw [hq', hold'] at hiff
        exact ⟨x, by rw [hreplacement, hiff.mp hname]⟩
    | replaced hout' hin' _ =>
        rw [isIncoming_replacedStep] at hincoming
        exact absurd hincoming (by simp)
    | erased => exact absurd hincoming Bool.false_ne_true
  · intro h
    obtain ⟨x, hreplacement⟩ := h
    obtain ⟨q, hin, hiff⟩ := hgoes.name_eq_iff hreplacement
    refine ⟨_, mem_steps_iff.mpr (.incoming hin), isIncoming_incomingKind .., ?_, q, o.package,
      (mem_incomingOf.mp hin).2, hgoes.package, hiff.mpr rfl⟩
    exact List.mem_map_of_mem (mem_replacedBy.mpr ⟨hout, _, hreplacement⟩)

/-- A package that is installed and not kept goes out, -/
theorem exists_outgoing_of_unkept (hinstalled : u.isInstalled id = true)
    (hunkept : kept.contains id = false) : ∃ o ∈ outgoingOf u kept multiversion, o.id = id :=
  exists_mem_outgoingOf.mpr
    ⟨⟨hinstalled, hunkept⟩, Catalog.mem_ids.mp (Catalog.mem_ids_of_isInstalled hinstalled)⟩

/-- and has a step of its own that takes it out. -/
theorem exists_step_out (hinstalled : u.isInstalled id = true)
    (hunkept : kept.contains id = false) :
    ∃ step ∈ (ofKept u kept multiversion).steps, step.id = id ∧ step.isIncoming = false := by
  have hout : ∃ o ∈ outgoingOf u kept multiversion, o.id = id :=
    exists_outgoing_of_unkept hinstalled hunkept
  obtain ⟨o, hout, rfl⟩ := hout
  cases hreplacement : o.replacement with
  | none => exact ⟨_, mem_steps_iff.mpr (.erased hout hreplacement), rfl, rfl⟩
  | some r =>
      obtain ⟨x, obsoleting⟩ := r
      obtain ⟨q, hin, -⟩ := (mem_outgoingOf.mp hout).name_eq_iff hreplacement
      exact ⟨_, mem_steps_iff.mpr (.replaced hout hin hreplacement), rfl,
        isIncoming_replacedStep ..⟩

end Transaction

end DepSolver
