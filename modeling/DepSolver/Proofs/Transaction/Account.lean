import Mathlib.Data.List.Nodup
import DepSolver.Goal.Report
import DepSolver.Proofs.Solution.Verdict
import DepSolver.Proofs.Transaction.Steps

/-!
# A transaction loses and duplicates nothing

Three lists are told from one another: the steps of a transaction, the pairs of packages of which
one takes the place of the other, and the listings in which a goal shows its packages.

* **Steps**: the packages that come in or go out have a step each. The steps are made in groups,
  a package that comes in with those whose place it takes; the groups do not overlap, because a
  package that goes out has one replacement at most.
* **Pairs**: `related` is read off the step of either side, and both sides tell of the same pairs.
* **Listings**: in the mode of listings, what a step is called tells whether its package comes in.
  The listings ask for different names, so they do not overlap; the names they ask for together are
  those of the packages that come in. `erase` is the name of what goes out and has no pair.
-/

namespace DepSolver

namespace Transaction

variable {u : Universe} {kept multiversion : PackageSet} {a b id : PackageId}

/-- Kept, and not installed. -/
def ComesIn (u : Universe) (kept : PackageSet) (id : PackageId) : Prop :=
  kept.contains id = true ∧ u.isInstalled id = false

/-- Installed, and not kept. -/
def GoesOut (u : Universe) (kept : PackageSet) (id : PackageId) : Prop :=
  u.isInstalled id = true ∧ kept.contains id = false

theorem ComesIn.not_goesOut (h : ComesIn u kept id) : ¬GoesOut u kept id := by
  intro hout
  exact Bool.false_ne_true (h.2.symm.trans hout.1)

/-! ## One step for each package -/

theorem nodup_map_packagesOf (u : Universe) (ids : PackageSet) :
    ((packagesOf u ids).map (·.1)).Nodup := by
  unfold packagesOf
  rw [List.map_filterMap, List.Nodup, List.pairwise_filterMap]
  refine (PackageSet.nodup_toList ids).imp ?_
  intro x y hne x' hx y' hy
  -- what is found for a number is numbered by it
  obtain ⟨⟨_, p⟩, hp, rfl⟩ := Option.map_eq_some_iff.mp hx
  obtain ⟨⟨_, q⟩, hq, rfl⟩ := Option.map_eq_some_iff.mp hy
  obtain ⟨_, -, heq⟩ := Option.map_eq_some_iff.mp hp
  obtain ⟨_, -, heq'⟩ := Option.map_eq_some_iff.mp hq
  rw [← (Prod.mk.inj heq).1, ← (Prod.mk.inj heq').1]
  exact hne

theorem nodup_map_outgoingOf (u : Universe) (kept multiversion : PackageSet) :
    ((outgoingOf u kept multiversion).map (·.id)).Nodup := by
  unfold outgoingOf
  rw [List.map_map]
  exact nodup_map_packagesOf u _

/-- The packages that the steps of a package that comes in are about. -/
theorem map_incomingSteps (p : PackageId × Package) :
    (incomingSteps multiversion (outgoingOf u kept multiversion) p).map (·.id) =
      p.1 :: (replacedBy u kept multiversion p.1).map (·.id) := by
  unfold incomingSteps
  rw [List.map_cons, List.map_map]
  rfl

theorem goesOut_of_mem_outgoingOf {o : Outgoing} (h : o ∈ outgoingOf u kept multiversion) :
    GoesOut u kept o.id :=
  ⟨(mem_outgoingOf.mp h).installed, (mem_outgoingOf.mp h).unkept⟩

theorem goesOut_of_mem_replacedBy (h : id ∈ (replacedBy u kept multiversion a).map (·.id)) :
    GoesOut u kept id := by
  obtain ⟨o, ho, rfl⟩ := List.mem_map.mp h
  exact goesOut_of_mem_outgoingOf (mem_replacedBy.mp ho).1

theorem comesIn_of_mem_incomingOf {p : PackageId × Package} (h : p ∈ incomingOf u kept) :
    ComesIn u kept p.1 :=
  (mem_incomingOf.mp h).1

/-- A package has its place taken by one package only. -/
theorem eq_of_mem_replacedBy (ha : id ∈ (replacedBy u kept multiversion a).map (·.id))
    (hb : id ∈ (replacedBy u kept multiversion b).map (·.id)) : a = b := by
  obtain ⟨o, ho, rfl⟩ := List.mem_map.mp ha
  obtain ⟨o', ho', hid⟩ := List.mem_map.mp hb
  obtain ⟨hout, _, hreplacement⟩ := mem_replacedBy.mp ho
  obtain ⟨hout', _, hreplacement'⟩ := mem_replacedBy.mp ho'
  obtain rfl := eq_of_mem_outgoingOf hout' hout hid
  rw [hreplacement] at hreplacement'
  exact (Prod.mk.inj (Option.some.inj hreplacement')).1

/-- **No package has two steps.** -/
theorem nodup_map_steps (u : Universe) (kept multiversion : PackageSet) :
    ((ofKept u kept multiversion).steps.map (·.id)).Nodup := by
  have hgone := nodup_map_outgoingOf u kept multiversion
  have hcome : ((incomingOf u kept).map (·.1)).Nodup := nodup_map_packagesOf u _
  rw [steps_ofKept, List.map_append, List.map_flatMap, List.map_map, List.nodup_append',
    List.nodup_flatMap]
  refine ⟨⟨?_, ?_⟩, ?_, ?_⟩
  · -- within the steps of a package that comes in
    intro p hp
    rw [map_incomingSteps, List.nodup_cons]
    refine ⟨?_, hgone.sublist (List.filter_sublist.map _)⟩
    intro hmem
    exact (comesIn_of_mem_incomingOf hp).not_goesOut (goesOut_of_mem_replacedBy hmem)
  · -- between those of two packages that come in
    refine (List.pairwise_map.mp hcome).imp_of_mem ?_
    intro p q hp hq hne x hx hx'
    dsimp only at hx hx'
    rw [map_incomingSteps, List.mem_cons] at hx hx'
    rcases hx with rfl | hx
    · rcases hx' with heq | hx'
      · exact hne heq
      · exact (comesIn_of_mem_incomingOf hp).not_goesOut (goesOut_of_mem_replacedBy hx')
    · rcases hx' with rfl | hx'
      · exact (comesIn_of_mem_incomingOf hq).not_goesOut (goesOut_of_mem_replacedBy hx)
      · exact hne (eq_of_mem_replacedBy hx hx')
  · exact hgone.sublist (List.filter_sublist.map _)
  · -- what is erased has no replacement
    intro x hx hx'
    obtain ⟨p, hp, hx⟩ := List.mem_flatMap.mp hx
    obtain ⟨o, ho, rfl⟩ := List.mem_map.mp hx'
    obtain ⟨hout, hnone⟩ := List.mem_filter.mp ho
    rw [map_incomingSteps, List.mem_cons] at hx
    rcases hx with heq | hx
    · exact (comesIn_of_mem_incomingOf hp).not_goesOut (heq ▸ goesOut_of_mem_outgoingOf hout)
    · obtain ⟨o', ho', hid⟩ := List.mem_map.mp hx
      obtain ⟨hout', _, hreplacement⟩ := mem_replacedBy.mp ho'
      obtain rfl := eq_of_mem_outgoingOf hout' hout hid
      rw [hreplacement] at hnone
      exact Bool.false_ne_true hnone

/-- A step that is not about a package that comes in is about one that goes out. -/
theorem Origin.comesIn_or_goesOut {step : Step} (h : Origin u kept multiversion step) :
    (step.isIncoming = true ∧ ComesIn u kept step.id) ∨
      (step.isIncoming = false ∧ GoesOut u kept step.id) := by
  cases h with
  | incoming hin => exact .inl ⟨isIncoming_incomingKind .., comesIn_of_mem_incomingOf hin⟩
  | replaced hout =>
      exact .inr ⟨isIncoming_replacedStep .., goesOut_of_mem_outgoingOf hout⟩
  | erased hout => exact .inr ⟨rfl, goesOut_of_mem_outgoingOf hout⟩

theorem exists_incoming_step_iff (multiversion : PackageSet)
    (hkept : ∀ id, kept.contains id = true → ∃ p, u.package? id = some p) :
    (∃ step ∈ (ofKept u kept multiversion).steps, step.id = id ∧ step.isIncoming = true) ↔
      ComesIn u kept id := by
  refine ⟨?_, ?_⟩
  · intro h
    obtain ⟨step, hstep, rfl, hincoming⟩ := h
    rcases (mem_steps_iff.mp hstep).comesIn_or_goesOut with ⟨-, hin⟩ | ⟨hnot, -⟩
    · exact hin
    · rw [hincoming] at hnot
      exact absurd hnot.symm Bool.false_ne_true
  · intro h
    obtain ⟨p, hp⟩ := hkept id h.1
    exact ⟨_, mem_steps_iff.mpr (.incoming (mem_incomingOf.mpr ⟨h, hp⟩)), rfl,
      isIncoming_incomingKind ..⟩

theorem exists_outgoing_step_iff :
    (∃ step ∈ (ofKept u kept multiversion).steps, step.id = id ∧ step.isIncoming = false) ↔
      GoesOut u kept id := by
  refine ⟨?_, fun h => exists_step_out h.1 h.2⟩
  intro h
  obtain ⟨step, hstep, rfl, hincoming⟩ := h
  rcases (mem_steps_iff.mp hstep).comesIn_or_goesOut with ⟨hin, -⟩ | ⟨-, hout⟩
  · rw [hincoming] at hin
    exact absurd hin Bool.false_ne_true
  · exact hout

/-! ## Both sides of a pair -/

/-- **A package takes the place of another**, which goes out. -/
def TakesPlace (u : Universe) (kept multiversion : PackageSet) (new old : PackageId) : Prop :=
  ∃ o ∈ outgoingOf u kept multiversion, o.id = old ∧
    ∃ obsoleting, o.replacement = some (new, obsoleting)

theorem TakesPlace.comesIn (h : TakesPlace u kept multiversion a b) : ComesIn u kept a := by
  obtain ⟨o, hout, rfl, _, hreplacement⟩ := h
  obtain ⟨q, hin, -⟩ := (mem_outgoingOf.mp hout).name_eq_iff hreplacement
  exact comesIn_of_mem_incomingOf hin

theorem TakesPlace.goesOut (h : TakesPlace u kept multiversion a b) : GoesOut u kept b := by
  obtain ⟨o, hout, rfl, -⟩ := h
  exact goesOut_of_mem_outgoingOf hout

theorem TakesPlace.eq {a' : PackageId} (h : TakesPlace u kept multiversion a b)
    (h' : TakesPlace u kept multiversion a' b) : a = a' := by
  obtain ⟨o, hout, rfl, hreplacement⟩ := h
  obtain ⟨o', hout', hid, hreplacement'⟩ := h'
  have hmem : o.id ∈ (replacedBy u kept multiversion a).map (·.id) :=
    List.mem_map_of_mem (mem_replacedBy.mpr ⟨hout, hreplacement⟩)
  have hmem' : o.id ∈ (replacedBy u kept multiversion a').map (·.id) :=
    List.mem_map.mpr ⟨o', mem_replacedBy.mpr ⟨hout', hreplacement'⟩, hid⟩
  exact eq_of_mem_replacedBy hmem hmem'

theorem mem_related :
    a ∈ (ofKept u kept multiversion).related b ↔
      ∃ step ∈ (ofKept u kept multiversion).steps, step.id = b ∧ a ∈ step.related := by
  unfold related
  refine ⟨?_, ?_⟩
  · intro h
    split at h
    · rename_i step hfind
      unfold step? at hfind
      have hid := List.find?_some hfind
      exact ⟨step, List.mem_of_find?_eq_some hfind, beq_iff_eq.mp hid, h⟩
    · exact absurd h List.not_mem_nil
  · intro h
    obtain ⟨step, hstep, rfl, hmem⟩ := h
    rw [step?_of_mem hstep]
    exact hmem

/-- **What stands beside a package** is what takes its place, and that whose place it takes. -/
theorem mem_related_iff :
    a ∈ (ofKept u kept multiversion).related b ↔
      TakesPlace u kept multiversion a b ∨ TakesPlace u kept multiversion b a := by
  rw [mem_related]
  refine ⟨?_, ?_⟩
  · intro h
    obtain ⟨step, hstep, rfl, hmem⟩ := h
    cases mem_steps_iff.mp hstep with
    | incoming =>
        obtain ⟨o, ho, rfl⟩ := List.mem_map.mp hmem
        obtain ⟨hout, hreplacement⟩ := mem_replacedBy.mp ho
        exact .inr ⟨o, hout, rfl, hreplacement⟩
    | replaced hout _ hreplacement =>
        obtain rfl := List.mem_singleton.mp hmem
        exact .inl ⟨_, hout, rfl, _, hreplacement⟩
    | erased => exact absurd hmem List.not_mem_nil
  · intro h
    rcases h with ⟨o, hout, rfl, _, hreplacement⟩ | ⟨o, hout, rfl, _, hreplacement⟩ <;>
      obtain ⟨q, hin, -⟩ := (mem_outgoingOf.mp hout).name_eq_iff hreplacement
    · exact ⟨_, mem_steps_iff.mpr (.replaced hout hin hreplacement), rfl, List.mem_cons_self ..⟩
    · exact ⟨_, mem_steps_iff.mpr (.incoming hin), rfl,
        List.mem_map_of_mem (mem_replacedBy.mpr ⟨hout, _, hreplacement⟩)⟩

/-! ## Listings -/

/-- The listings that ask for different names share no package, and name none twice. -/
theorem nodup_flatMap_ofTypes {t : Transaction} (mode : TransactionMode)
    (hnodup : (t.steps.map (·.id)).Nodup) {names : List (List StepType)}
    (hapart : names.Pairwise List.Disjoint) : (names.flatMap (t.ofTypes mode)).Nodup := by
  rw [List.nodup_flatMap]
  refine ⟨fun _ _ => hnodup.filter _, hapart.imp ?_⟩
  intro types types' hdisjoint id hid hid'
  have hmem := (List.mem_filter.mp hid).2
  have hmem' := (List.mem_filter.mp hid').2
  exact hdisjoint (List.contains_iff_mem.mp hmem) (List.contains_iff_mem.mp hmem')

/-- The names that the listings of packages that come in ask for. -/
def incomingNames : List (List StepType) :=
  [[.install, .obsoletes], [.upgrade], [.downgrade], [.reinstall]]

/-- **In the mode of listings**, a step has one of these names if its package comes in, -/
theorem exists_type_mem_incomingNames (kind : StepKind) :
    (∃ types ∈ incomingNames, kind.type Goal.listingMode ∈ types) ↔ kind.isIncoming = true := by
  cases kind with
  | replace how | replaced how => cases how <;> decide
  | _ => decide

/-- and only what is erased is called so. -/
theorem type_mem_erase (kind : StepKind) :
    kind.type Goal.listingMode ∈ [StepType.erase] ↔ kind = .erase := by
  cases kind with
  | replace how | replaced how => cases how <;> decide
  | _ => decide

theorem mem_flatMap_incomingNames (multiversion : PackageSet)
    (hkept : ∀ id, kept.contains id = true → ∃ p, u.package? id = some p) :
    id ∈ incomingNames.flatMap ((ofKept u kept multiversion).ofTypes Goal.listingMode) ↔
      ComesIn u kept id := by
  rw [List.mem_flatMap, ← exists_incoming_step_iff multiversion hkept]
  refine ⟨?_, ?_⟩
  · intro h
    obtain ⟨types, htypes, hid⟩ := h
    obtain ⟨step, hstep, rfl, hmem⟩ := mem_ofTypes.mp hid
    exact ⟨step, hstep, rfl, (exists_type_mem_incomingNames _).mp ⟨types, htypes, hmem⟩⟩
  · intro h
    obtain ⟨step, hstep, rfl, hincoming⟩ := h
    obtain ⟨types, htypes, hmem⟩ := (exists_type_mem_incomingNames _).mpr hincoming
    exact ⟨types, htypes, mem_ofTypes.mpr ⟨step, hstep, rfl, hmem⟩⟩

/-- **What is listed as erased** goes out, and nothing takes its place. -/
theorem mem_ofTypes_erase :
    id ∈ (ofKept u kept multiversion).ofTypes Goal.listingMode [.erase] ↔
      GoesOut u kept id ∧ ∀ a, ¬TakesPlace u kept multiversion a id := by
  rw [mem_ofTypes]
  refine ⟨?_, ?_⟩
  · intro h
    obtain ⟨step, hstep, rfl, hmem⟩ := h
    have hkind := (type_mem_erase step.kind).mp hmem
    have hnotIn : step.isIncoming = false := by
      unfold Step.isIncoming
      rw [hkind]
      rfl
    cases mem_steps_iff.mp hstep with
    | incoming =>
        have hin : (incomingKind _ _ _).isIncoming = false := hnotIn
        rw [isIncoming_incomingKind] at hin
        exact absurd hin.symm Bool.false_ne_true
    | replaced =>
        unfold replacedStep at hkind
        dsimp only at hkind
        split at hkind <;> exact absurd hkind (by simp)
    | erased hout hnone =>
        refine ⟨goesOut_of_mem_outgoingOf hout, ?_⟩
        intro a h
        obtain ⟨o', hout', hid, _, hreplacement⟩ := h
        obtain rfl := eq_of_mem_outgoingOf hout' hout hid
        rw [hnone] at hreplacement
        exact absurd hreplacement (by simp)
  · intro h
    obtain ⟨⟨hinstalled, hunkept⟩, hnone⟩ := h
    have hout : ∃ o ∈ outgoingOf u kept multiversion, o.id = id :=
      exists_outgoing_of_unkept hinstalled hunkept
    obtain ⟨o, hout, rfl⟩ := hout
    cases hreplacement : o.replacement with
    | none =>
        exact ⟨_, mem_steps_iff.mpr (.erased hout hreplacement), rfl, (type_mem_erase _).mpr rfl⟩
    | some r => exact absurd ⟨o, hout, rfl, r.2, hreplacement⟩ (hnone r.1)

/-! ## The account -/

/-- **A transaction that loses and duplicates nothing.** -/
structure Accounts (u : Universe) (kept : PackageSet) (t : Transaction) : Prop where
  /-- No package has two steps. -/
  nodup : (t.steps.map (·.id)).Nodup
  /-- What is kept and not installed comes in, and nothing else. -/
  comesIn : ∀ id,
    (∃ step ∈ t.steps, step.id = id ∧ step.isIncoming = true) ↔ ComesIn u kept id
  /-- What is installed and not kept goes out, and nothing else. -/
  goesOut : ∀ id,
    (∃ step ∈ t.steps, step.id = id ∧ step.isIncoming = false) ↔ GoesOut u kept id
  /-- Both packages of a pair tell of it. -/
  symmetric : ∀ a b, a ∈ t.related b ↔ b ∈ t.related a
  /-- Of a pair, one package comes in and the other goes out. -/
  paired : ∀ a b, a ∈ t.related b →
    (ComesIn u kept a ∧ GoesOut u kept b) ∨ (ComesIn u kept b ∧ GoesOut u kept a)

/-- **Listings that show every package of a transaction once.** What goes out is listed itself or
beside the one package that takes its place. -/
structure Listed (u : Universe) (kept : PackageSet) (t : Transaction)
    (installs upgrades downgrades reinstalls erasures : List PackageId) : Prop where
  /-- No package is listed twice, in two listings or in one. -/
  nodup : (installs ++ upgrades ++ downgrades ++ reinstalls ++ erasures).Nodup
  comesIn : ∀ id, id ∈ installs ++ upgrades ++ downgrades ++ reinstalls ↔ ComesIn u kept id
  erased : ∀ id ∈ erasures, GoesOut u kept id
  goesOut : ∀ id, GoesOut u kept id →
    (id ∈ erasures ∧ ∀ a, id ∉ t.related a) ∨
      (id ∉ erasures ∧ ∃! a, ComesIn u kept a ∧ id ∈ t.related a)

theorem mem_related_of_goesOut (h : GoesOut u kept id) :
    id ∈ (ofKept u kept multiversion).related a ↔ TakesPlace u kept multiversion a id := by
  rw [mem_related_iff]
  exact or_iff_right fun hin => hin.comesIn.not_goesOut h

theorem listed_ofTypes (u : Universe) (kept multiversion : PackageSet)
    (hkept : ∀ id, kept.contains id = true → ∃ p, u.package? id = some p) :
    (ofKept u kept multiversion).Listed u kept
      ((ofKept u kept multiversion).ofTypes Goal.listingMode [.install, .obsoletes])
      ((ofKept u kept multiversion).ofTypes Goal.listingMode [.upgrade])
      ((ofKept u kept multiversion).ofTypes Goal.listingMode [.downgrade])
      ((ofKept u kept multiversion).ofTypes Goal.listingMode [.reinstall])
      ((ofKept u kept multiversion).ofTypes Goal.listingMode [.erase]) where
  nodup := by
    have hapart : (incomingNames ++ [[StepType.erase]]).Pairwise List.Disjoint := by
      simp [incomingNames]
    have h := nodup_flatMap_ofTypes Goal.listingMode (nodup_map_steps u kept multiversion) hapart
    simpa [incomingNames] using h
  comesIn := by
    intro id
    rw [← mem_flatMap_incomingNames multiversion hkept]
    simp [incomingNames]
  erased := fun id hid => (mem_ofTypes_erase.mp hid).1
  goesOut := by
    intro id hout
    have hrelated : ∀ a, id ∈ (ofKept u kept multiversion).related a ↔
        TakesPlace u kept multiversion a id := fun a => mem_related_of_goesOut hout
    by_cases htaken : ∃ a, TakesPlace u kept multiversion a id
    · obtain ⟨a, ha⟩ := htaken
      refine .inr ⟨fun herased => (mem_ofTypes_erase.mp herased).2 a ha, a, ?_, ?_⟩
      · exact ⟨ha.comesIn, (hrelated a).mpr ha⟩
      · exact fun a' ha' => ((hrelated a').mp ha'.2).eq ha
    · have hnone : ∀ a, ¬TakesPlace u kept multiversion a id := not_exists.mp htaken
      exact .inl ⟨mem_ofTypes_erase.mpr ⟨hout, hnone⟩, fun a h => hnone a ((hrelated a).mp h)⟩

/--
**A transaction loses and duplicates nothing.**

Whatever packages are kept, and whichever of them stand beside other versions of their name: each
package that comes in or goes out has one step, and no other has any; what takes a place and what
gives it up tell of each other; and a goal with this transaction lists what comes in once, and what
goes out once as well unless it shows it beside what takes its place.
-/
theorem accounts_ofKept (u : Universe) (kept multiversion : PackageSet)
    (hkept : ∀ id, kept.contains id = true → ∃ p, u.package? id = some p) :
    (ofKept u kept multiversion).Accounts u kept ∧
      ∀ g : Goal, g.transaction? = some (ofKept u kept multiversion) →
        ∃ installs upgrades downgrades reinstalls erasures,
          g.installs = .ok installs ∧ g.upgrades = .ok upgrades ∧
          g.downgrades = .ok downgrades ∧ g.reinstalls = .ok reinstalls ∧
          g.erasures = .ok erasures ∧
          (ofKept u kept multiversion).Listed u kept
            installs upgrades downgrades reinstalls erasures := by
  refine ⟨⟨nodup_map_steps u kept multiversion, ?_, ?_, ?_, ?_⟩, ?_⟩
  · exact fun id => exists_incoming_step_iff multiversion hkept
  · exact fun id => exists_outgoing_step_iff
  · intro a b
    rw [mem_related_iff, mem_related_iff, or_comm]
  · intro a b h
    rcases mem_related_iff.mp h with h | h
    · exact .inl ⟨h.comesIn, h.goesOut⟩
    · exact .inr ⟨h.comesIn, h.goesOut⟩
  · intro g hg
    have hlist : ∀ types, g.listTypes types =
        .ok ((ofKept u kept multiversion).ofTypes Goal.listingMode types) := by
      intro types
      unfold Goal.listTypes Goal.transaction
      rw [hg]
      rfl
    exact ⟨_, _, _, _, _, hlist _, hlist _, hlist _, hlist _, hlist _,
      listed_ofTypes u kept multiversion hkept⟩

/-- Five installed packages and four available ones. `viewer` obsoletes two of the former. -/
def moving : Universe :=
  .ofCatalog <| .ofSystem
    [plainPackage "shell" "1" 0,
     plainPackage "editor" "1" 0,
     plainPackage "pager" "1" 0,
     plainPackage "kernel" "1" 0,
     plainPackage "game" "1" 0]
    [plainPackage "shell" "2" 1,
     { plainPackage "viewer" "1" 1 with
       obsoletes := [Relation.ofName "editor", Relation.ofName "pager"] },
     plainPackage "kernel" "2" 1,
     plainPackage "font" "1" 1]

def movingKept : PackageSet := .ofList [4, 6, 7, 8, 9]

/-- A goal that was resolved so, with kernels side by side. -/
def movingGoal : Goal :=
  { world := moving, transaction? := some (ofKept moving movingKept (.ofList [4, 8])) }

/-- One package is upgraded, two are obsoleted by one, one is erased, and two come in for none. -/
theorem accounts_ofKept_moving :
    (∀ id, movingKept.contains id = true → ∃ p, moving.package? id = some p) ∧
    (ofKept moving movingKept (.ofList [4, 8])).Accounts moving movingKept ∧
    (ofKept moving movingKept (.ofList [4, 8])).Listed moving movingKept
      [7, 8, 9] [6] [] [] [5] := by
  have hkept : ∀ id, movingKept.contains id = true → ∃ p, moving.package? id = some p := by
    have hall : ∀ id ∈ [4, 6, 7, 8, 9], (moving.package? id).isSome = true := by decide +kernel
    intro id hid
    exact Option.isSome_iff_exists.mp (hall id (PackageSet.contains_ofList.mp hid).2)
  have h := accounts_ofKept moving movingKept (.ofList [4, 8]) hkept
  obtain ⟨i, up, d, r, e, hi, hup, hd, hr, he, hlisted⟩ := h.2 movingGoal rfl
  obtain rfl : [7, 8, 9] = i := Except.ok.inj (Eq.trans (by decide +kernel) hi)
  obtain rfl : [6] = up := Except.ok.inj (Eq.trans (by decide +kernel) hup)
  obtain rfl : [] = d := Except.ok.inj (Eq.trans (by decide +kernel) hd)
  obtain rfl : [] = r := Except.ok.inj (Eq.trans (by decide +kernel) hr)
  obtain rfl : [5] = e := Except.ok.inj (Eq.trans (by decide +kernel) he)
  exact ⟨hkept, h.1, hlisted⟩

end Transaction

end DepSolver
