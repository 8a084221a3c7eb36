import Mathlib.Data.List.Nodup
import DepSolver.Goal.Basic

/-!
# Selectors that were set up by calls, and their entries

A selector is set up by calls, each of which adds a value to a filter or is refused. Of the four
dimensions that pin down what a selector is about at most one is ever occupied, because a call for
another one is refused.

Putting a selector to use relies on this. Only the first occupied one of the four is looked at, and
so the filters that are looked at are all the filters there are: none can be of several values
without being noticed.
-/

namespace DepSolver

/-- A chain of steps ends well if each of them does. -/
theorem bind_eq_ok {ε α β : Type} {x : Except ε α} {f : α → Except ε β} {b : β} :
    x >>= f = .ok b ↔ ∃ a, x = .ok a ∧ f a = .ok b := by
  cases x with
  | error e =>
      refine iff_of_false (fun h : Except.error e = .ok b => absurd h (by simp)) ?_
      rintro ⟨a, h, -⟩
      exact absurd h (by simp)
  | ok a =>
      refine ⟨fun h => ⟨a, rfl, h⟩, ?_⟩
      rintro ⟨a', h, hf⟩
      rw [Except.ok.inj h]
      exact hf

theorem throw_ne_ok {ε α : Type} {e : ε} {a : α} : (throw e : Except ε α) ≠ .ok a := by
  simp [throw, throwThe, MonadExceptOf.throw]

/-- Joining modifiers to others loses none of them. -/
theorem JobFlags.contains_or_right (a b : JobFlags) : (a ||| b).contains b = true := by
  unfold contains
  rw [beq_iff_eq, ← UInt32.toBitVec_inj, UInt32.toBitVec_and]
  show (a.bits ||| b.bits).toBitVec &&& _ = _
  rw [UInt32.toBitVec_or]
  grind

namespace Selector

/-! ## Setting up -/

/-- A call that sets up a selector. -/
inductive Call where
  | set (key : FilterKey) (cmp : Comparison) (value : String)
  | setPkgs (pkgs : PackageSet)

/-- The required dimension that a call occupies, if it occupies one. -/
def Call.slot? : Call → Option String
  | set key _ _ => if key.isRequired then some key.toText else none
  | setPkgs _ => some "pkgs"

def apply (s : Selector) : Call → Except SelectorError Selector
  | .set key cmp value => s.set key cmp value
  | .setPkgs pkgs => s.setPkgs pkgs

/-- The selector after a call, which is the one before it if the call is refused. -/
def call (s : Selector) (c : Call) : Selector :=
  match s.apply c with
  | .ok s' => s'
  | .error _ => s

/-- What a call makes of a selector if it is not refused. -/
def put (s : Selector) : Call → Selector
  | .set key cmp value => s.place key cmp value
  | .setPkgs pkgs => { s with pkgs := some pkgs }

/-- A selector that some calls lead to, refused ones among them. -/
inductive Reachable : Selector → Prop
  | new : Reachable {}
  | call {s : Selector} (h : Reachable s) (c : Call) : Reachable (s.call c)

/-- The required dimensions that are occupied. -/
def occupied (s : Selector) : List String := (s.requiredSlots.filter (·.2)).map (·.1)

variable {s s' : Selector} {c : Call}

theorem nodup_occupied (s : Selector) : s.occupied.Nodup := by
  have hslots : (s.requiredSlots.map (·.1)).Nodup := by
    show ["name", "provides", "file", "pkgs"].Nodup
    decide
  exact hslots.sublist (List.filter_sublist.map _)

theorem mem_occupied {slot : String} : slot ∈ s.occupied ↔
    slot = "name" ∧ s.name.isSome = true ∨ slot = "provides" ∧ s.provides.isSome = true ∨
      slot = "file" ∧ s.file.isSome = true ∨ slot = "pkgs" ∧ s.pkgs.isSome = true := by
  unfold occupied requiredSlots
  simp only [List.mem_map, List.mem_filter, List.mem_cons, List.not_mem_nil, or_false,
    or_and_right, exists_or, exists_eq_left, and_assoc]
  grind

/-- A call occupies its own dimension, and no other. -/
theorem mem_occupied_put {slot : String} :
    slot ∈ (s.put c).occupied ↔ slot ∈ s.occupied ∨ c.slot? = some slot := by
  have hextend : ∀ (slot : Option Filter) (key : FilterKey) (cmp : Comparison) (value : String),
      (extend slot key cmp value).isSome = true := by
    intro slot key cmp value
    cases slot <;> rfl
  rw [mem_occupied, mem_occupied]
  cases c with
  | set key cmp value =>
      cases key <;> simp [put, place, hextend, Call.slot?, FilterKey.isRequired, FilterKey.toText] <;>
        grind
  | setPkgs pkgs =>
      simp [put, Call.slot?]
      grind

/-! ## One dimension at most -/

/-- Whether no two required dimensions are occupied. -/
def Exclusive (s : Selector) : Prop := ∀ slot ∈ s.occupied, ∀ other ∈ s.occupied, other = slot

theorem Exclusive.length_le (h : s.Exclusive) : s.occupied.length ≤ 1 := by
  have hnodup := s.nodup_occupied
  unfold Exclusive at h
  cases hslots : s.occupied with
  | nil => exact Nat.zero_le 1
  | cons slot slots =>
    cases slots with
    | nil => exact Nat.le_refl 1
    | cons other slots =>
        rw [hslots] at h hnodup
        have hsame : other = slot := h slot (by simp) other (by simp)
        rw [hsame] at hnodup
        exact absurd (List.mem_cons_self ..) (List.nodup_cons.mp hnodup).1

/-- A dimension is refused because of another one that is occupied. -/
theorem checkRequiredSlot_cases (s : Selector) (key : String) (s' : Selector) :
    (∃ other ∈ s.occupied, other ≠ key ∧ (s.checkRequiredSlot key >>= fun _ => .ok s') =
      .error (.conflictingFilters key other)) ∨
    (∀ other ∈ s.occupied, other = key) ∧ (s.checkRequiredSlot key >>= fun _ => .ok s') = .ok s' := by
  unfold checkRequiredSlot
  cases hfound : s.requiredSlots.find? fun slot => slot.2 && slot.1 != key with
  | some slot =>
      left
      have hslot := List.find?_some hfound
      rw [Bool.and_eq_true, bne_iff_ne] at hslot
      refine ⟨slot.1, List.mem_map_of_mem ?_, hslot.2, rfl⟩
      exact List.mem_filter.mpr ⟨List.mem_of_find?_eq_some hfound, hslot.1⟩
  | none =>
      right
      refine ⟨fun other hother => ?_, rfl⟩
      obtain ⟨slot, hslot, rfl⟩ := List.mem_map.mp hother
      obtain ⟨hmem, hoccupied⟩ := List.mem_filter.mp hslot
      have hnot := List.find?_eq_none.mp hfound slot hmem
      rw [hoccupied, Bool.true_and, bne_iff_ne, Decidable.not_not] at hnot
      exact hnot

/-- **A call is refused because of another dimension, or it has its effect.** -/
theorem Exclusive.apply_cases (h : s.Exclusive) (c : Call) :
    (∃ key other, c.slot? = some key ∧ other ∈ s.occupied ∧ other ≠ key ∧
      s.apply c = .error (.conflictingFilters key other)) ∨
    (∀ key, c.slot? = some key → ∀ other ∈ s.occupied, other = key) ∧ s.apply c = .ok (s.put c) := by
  -- a dimension that is looked at decides the call
  have hchecked : ∀ key, c.slot? = some key →
      s.apply c = (s.checkRequiredSlot key >>= fun _ => .ok (s.put c)) →
      (∃ key other, c.slot? = some key ∧ other ∈ s.occupied ∧ other ≠ key ∧
        s.apply c = .error (.conflictingFilters key other)) ∨
      (∀ key, c.slot? = some key → ∀ other ∈ s.occupied, other = key) ∧
        s.apply c = .ok (s.put c) := by
    intro key hslot happly
    rw [happly]
    rcases s.checkRequiredSlot_cases key (s.put c) with ⟨other, hother, hne, hcheck⟩ | ⟨hall, hcheck⟩
    · exact .inl ⟨key, other, hslot, hother, hne, hcheck⟩
    · refine .inr ⟨fun key' hkey' => ?_, hcheck⟩
      rw [hslot] at hkey'
      exact Option.some.inj hkey' ▸ hall
  cases c with
  | set key cmp value =>
      by_cases hkey : key.isRequired = true
      · exact hchecked key.toText (if_pos hkey) (if_pos hkey)
      · refine .inr ⟨fun key' hkey' => ?_, if_neg hkey⟩
        rw [Call.slot?, if_neg hkey] at hkey'
        exact absurd hkey' (by simp)
  | setPkgs pkgs =>
      by_cases hpkgs : s.pkgs.isNone = true
      · exact hchecked "pkgs" rfl (if_pos hpkgs)
      · -- packages that are given already exclude all else
        have hgiven : s.pkgs.isSome = true := by
          rwa [Bool.not_eq_true, Option.isNone_eq_false_iff] at hpkgs
        have hown : "pkgs" ∈ s.occupied := mem_occupied.mpr (by simp [hgiven])
        refine .inr ⟨fun key hkey other hother => ?_, if_neg hpkgs⟩
        rw [← Option.some.inj hkey]
        exact h "pkgs" hown other hother

/-- **A call keeps the required dimensions exclusive.** -/
theorem Exclusive.call (h : s.Exclusive) (c : Call) : (s.call c).Exclusive := by
  unfold Selector.call
  rcases h.apply_cases c with ⟨key, other, -, -, -, happly⟩ | ⟨hfree, happly⟩
  · rw [happly]
    exact h
  · rw [happly]
    intro slot hslot other hother
    rw [mem_occupied_put] at hslot hother
    rcases hslot with hslot | hslot
    · rcases hother with hother | hother
      · exact h slot hslot other hother
      · exact (hfree other hother slot hslot).symm
    · rcases hother with hother | hother
      · exact hfree slot hslot other hother
      · rw [hslot] at hother
        exact (Option.some.inj hother).symm

theorem Reachable.exclusive (h : s.Reachable) : s.Exclusive := by
  induction h with
  | new => exact fun slot hslot => absurd hslot (by rw [mem_occupied]; simp)
  | call _ c ih => exact ih.call c

/-! ## Putting to use -/

/-- All filters of a selector. -/
def filters (s : Selector) : List Filter :=
  [s.name, s.evr, s.arch, s.provides, s.file, s.reponame].filterMap id

/-- Whether the filters of a selector are such that it can be put to use. -/
structure Usable (s : Selector) : Prop where
  /-- No filter was given several values. -/
  single : ∀ f ∈ s.filters, ∃ value, f.values = [value]
  /-- What narrows has something to narrow. -/
  required : s.hasOptionalFilter = true → s.hasRequiredFilter = true

variable {u : Universe} {job : Job} {f : Filter} {before after : List Selection}

theorem value_eq_ok {value : String} : f.value = .ok value ↔ f.values = [value] := by
  unfold Filter.value
  split
  · rename_i only hvalues
    rw [hvalues, Except.ok.injEq, List.singleton_inj]
  · rename_i hvalues
    exact iff_of_false (by simp) (hvalues value)

/-- Whatever goes on from the value of a filter fails if there is not exactly one. -/
theorem exists_value_of_bind {α : Type} {next : String → Except SelectorError α} {a : α}
    (h : f.value >>= next = .ok a) : ∃ value, f.values = [value] := by
  obtain ⟨value, hvalue, -⟩ := bind_eq_ok.mp h
  exact ⟨value, value_eq_ok.mp hvalue⟩

theorem exists_value_of_exactValue {value : String} (h : exactValue f = .ok value) :
    ∃ value, f.values = [value] := exists_value_of_bind h

theorem exists_value_of_narrowArch (h : narrowArch u f before = .ok after) :
    ∃ value, f.values = [value] := by
  obtain ⟨arch, harch, -⟩ := bind_eq_ok.mp h
  exact exists_value_of_exactValue harch

theorem exists_value_of_narrowEvr (h : narrowEvr u f before = .ok after) :
    ∃ value, f.values = [value] := by
  obtain ⟨evr, hevr, -⟩ := bind_eq_ok.mp h
  obtain ⟨value, hvalue, -⟩ := bind_eq_ok.mp hevr
  exact exists_value_of_exactValue hvalue

theorem exists_value_of_narrowRepo (h : narrowRepo u f before = .ok after) :
    ∃ value, f.values = [value] := by
  obtain ⟨repo, hrepo, -⟩ := bind_eq_ok.mp h
  exact exists_value_of_exactValue hrepo

/-- A step of narrowing is left out, or it is taken with the filter that there is. -/
theorem narrowBy_eq_ok {f? : Option Filter}
    {narrow : Filter → List Selection → Except SelectorError (List Selection)} :
    narrowBy f? narrow before = .ok after ↔
      f? = none ∧ after = before ∨ ∃ f, f? = some f ∧ narrow f before = .ok after := by
  cases f? with
  | none => simp [narrowBy, eq_comm]
  | some f => simp [narrowBy]

/-- **The selections of a selector, step by step.** -/
theorem selections_eq_ok : s.selections u job = .ok after ↔
    s.hasRequiredFilter = true ∧ (∃ required inArch inVersion,
      selectRequired u job s = .ok required ∧
      narrowBy s.arch (narrowArch u) required = .ok inArch ∧
      narrowBy s.evr (narrowEvr u) inArch = .ok inVersion ∧
      narrowBy s.reponame (narrowRepo u) inVersion = .ok after) ∨
    s.hasRequiredFilter = false ∧ s.hasOptionalFilter = false ∧ after = [] := by
  unfold selections
  cases hrequired : s.hasRequiredFilter
  · cases hoptional : s.hasOptionalFilter
    · simp [pure, Except.pure, eq_comm]
    · simp [throw, throwThe, MonadExceptOf.throw]
  · simp [bind_eq_ok]

/-- Beside an occupied required dimension the others are free. -/
theorem Exclusive.free (h : s.Exclusive) {slot other : String} {isOccupied : Bool}
    (hslot : slot ∈ s.occupied) (hother : (other, isOccupied) ∈ s.requiredSlots)
    (hne : other ≠ slot) : isOccupied = false := by
  rw [← Bool.not_eq_true]
  intro hoccupied
  exact hne (h slot hslot other (List.mem_map_of_mem (List.mem_filter.mpr ⟨hother, hoccupied⟩)))

/-- **No required filter is passed over**, as there is no more than one. -/
theorem Exclusive.exists_value (h : s.Exclusive) (hok : selectRequired u job s = .ok after)
    (hf : s.name = some f ∨ s.file = some f ∨ s.provides = some f) : ∃ value, f.values = [value] := by
  have hnone : ∀ {α : Type} {o : Option α}, o.isSome = false → o = none := fun h => by simpa using h
  have hname : ("name", s.name.isSome) ∈ s.requiredSlots := by simp [requiredSlots]
  have hfile : ("file", s.file.isSome) ∈ s.requiredSlots := by simp [requiredSlots]
  have hpkgs : ("pkgs", s.pkgs.isSome) ∈ s.requiredSlots := by simp [requiredSlots]
  unfold selectRequired at hok
  rcases hf with hf | hf | hf
  · have hslot : "name" ∈ s.occupied := mem_occupied.mpr (by simp [hf])
    rw [hnone (h.free hslot hpkgs (by decide)), hf] at hok
    exact exists_value_of_bind hok
  · have hslot : "file" ∈ s.occupied := mem_occupied.mpr (by simp [hf])
    rw [hnone (h.free hslot hpkgs (by decide)), hnone (h.free hslot hname (by decide)), hf] at hok
    exact exists_value_of_bind hok
  · have hslot : "provides" ∈ s.occupied := mem_occupied.mpr (by simp [hf])
    rw [hnone (h.free hslot hpkgs (by decide)), hnone (h.free hslot hname (by decide)),
      hnone (h.free hslot hfile (by decide)), hf] at hok
    exact exists_value_of_bind hok

/-- **What can be put to use is usable.** -/
theorem Exclusive.usable (h : s.Exclusive) (hok : s.selections u job = .ok after) : s.Usable := by
  have hexists : ∀ {f? : Option Filter} {narrow : Filter → List Selection →
      Except SelectorError (List Selection)} {before after : List Selection},
      (∀ {f}, narrow f before = .ok after → ∃ value, f.values = [value]) →
        narrowBy f? narrow before = .ok after →
          ∀ f, f? = some f → ∃ value, f.values = [value] := by
    intro f? narrow before after hnarrow hby f hf
    rcases narrowBy_eq_ok.mp hby with ⟨hnone, -⟩ | ⟨f', hf', hstep⟩
    · rw [hnone] at hf
      exact absurd hf (by simp)
    · rw [hf] at hf'
      exact Option.some.inj hf' ▸ hnarrow hstep
  rcases selections_eq_ok.mp hok with
    ⟨hrequired, required, inArch, inVersion, hreq, harch, hevr, hrepo⟩ | ⟨hrequired, hoptional, -⟩
  · refine ⟨fun f hf => ?_, fun _ => hrequired⟩
    simp only [filters, List.mem_filterMap, List.mem_cons, List.not_mem_nil, or_false, id] at hf
    obtain ⟨slot, hslot, rfl⟩ := hf
    rcases hslot with hslot | hslot | hslot | hslot | hslot | hslot
    · exact h.exists_value hreq (.inl hslot.symm)
    · exact hexists exists_value_of_narrowEvr hevr f hslot.symm
    · exact hexists exists_value_of_narrowArch harch f hslot.symm
    · exact h.exists_value hreq (.inr (.inr hslot.symm))
    · exact h.exists_value hreq (.inr (.inl hslot.symm))
    · exact hexists exists_value_of_narrowRepo hrepo f hslot.symm
  · have hempty : s.filters = [] := by
      simp only [hasRequiredFilter, hasOptionalFilter, Bool.or_eq_false_iff, Option.isSome_eq_false_iff,
        Option.isNone_iff_eq_none] at hrequired hoptional
      unfold filters
      rw [hrequired.1.1.1, hrequired.1.1.2, hrequired.1.2, hoptional.1.1, hoptional.1.2, hoptional.2]
      rfl
    refine ⟨fun f hf => ?_, fun hsome => ?_⟩
    · rw [hempty] at hf
      exact absurd hf List.not_mem_nil
    · rw [hoptional] at hsome
      exact absurd hsome Bool.false_ne_true

/-! ## Entries -/

/-- Every entry has the action it was asked for, and no modifier that was asked for is lost. -/
theorem of_mem_entries {action : JobAction} {flags : JobFlags} {entries : List JobEntry}
    (hok : s.entries u action flags job = .ok entries) :
    ∀ e ∈ entries, e.action = action ∧ e.flags.contains flags = true := by
  obtain ⟨selections, -, hentries⟩ := bind_eq_ok.mp hok
  rw [← Except.ok.inj hentries]
  intro e he
  obtain ⟨sel, -, rfl⟩ := List.mem_map.mp he
  exact ⟨rfl, JobFlags.contains_or_right ..⟩

end Selector

/--
**Selectors are exclusive, and are put to use as a whole or not at all.**

However a selector was set up, at most one of the dimensions that pin down what it is about is
occupied. A call is refused exactly if it is about another of these than the one that is occupied,
which its error names, and then changes nothing. Put to use in a request, a selector adds entries to
the job only if each of its filters has a single value and what narrows has something to narrow; the
entries have the action and at least the modifiers of the request, and stand behind what was there.
Otherwise the goal stays as it was.
-/
theorem stageSelector_of_reachable (s : Selector) (h : s.Reachable) :
    s.occupied.length ≤ 1 ∧
    (∀ c e, s.apply c = .error e ↔ ∃ key other, c.slot? = some key ∧ other ∈ s.occupied ∧
      other ≠ key ∧ e = .conflictingFilters key other) ∧
    (∀ c e, s.apply c = .error e → s.call c = s) ∧
    ∀ (g : Goal) (action : JobAction) (flags : JobFlags),
      (∀ e, (g.stageSelector s action flags).1 = .error e →
        (g.stageSelector s action flags).2 = g) ∧
      ((g.stageSelector s action flags).1 = .ok () → s.Usable ∧
        ∃ entries, (g.stageSelector s action flags).2 = { g with staged := g.staged ++ entries } ∧
          ∀ e ∈ entries, e.action = action ∧ e.flags.contains flags = true) := by
  have hexclusive := h.exclusive
  refine ⟨hexclusive.length_le, fun c e => ?_, fun c e hrefused => ?_, fun g action flags => ?_⟩
  · rcases hexclusive.apply_cases c with ⟨key, other, hslot, hother, hne, happly⟩ | ⟨hfree, happly⟩
    · rw [happly]
      refine ⟨fun herror => ⟨key, other, hslot, hother, hne, (Except.error.inj herror).symm⟩, ?_⟩
      rintro ⟨key', other', hslot', hother', -, rfl⟩
      rw [hslot] at hslot'
      rw [Option.some.inj hslot', hexclusive other hother other' hother']
    · rw [happly]
      refine iff_of_false (by simp) ?_
      rintro ⟨key, other, hslot, hother, hne, -⟩
      exact hne (hfree key hslot other hother)
  · unfold Selector.call
    rw [hrefused]
  · unfold Goal.stageSelector
    cases hentries : s.entries g.world action flags g.staged with
    | error e => exact ⟨fun _ _ => rfl, fun hok => absurd hok (by simp)⟩
    | ok entries =>
        obtain ⟨selections, hselections, -⟩ := bind_eq_ok.mp hentries
        exact ⟨fun _ herror => absurd herror (by simp), fun _ =>
          ⟨hexclusive.usable hselections, entries, rfl, Selector.of_mem_entries hentries⟩⟩

/-- A goal that upgrades everything, over a tool that is available. -/
def workbench : Goal where
  world :=
    .ofCatalog
      { packages :=
          #[{ name := "tool", evr := { epoch := 0, version := "2", release := some "1" }
              arch := "x86_64" }]
        repos := #[{ name := "available", priority := defaultPriority, installed := false }] }
  staged := [{ action := .update, target := .all }]

/-- A tool by its name, after a refused call for what provides it, and of one architecture. -/
def namedTool : Selector :=
  ((({} : Selector).call (.set .name .exact "tool")).call (.set .provides .exact "tool >= 2")).call
    (.set .arch .exact "x86_64")

/-- The tool is asked for beside the upgrade, and if possible only. -/
theorem stageSelector_of_reachable_namedTool :
    namedTool.Reachable ∧ namedTool.occupied = ["name"] ∧
    namedTool.apply (.set .provides .exact "tool >= 2") =
      .error (.conflictingFilters "provides" "name") ∧
    (workbench.stageSelector namedTool .install .weak).1 = .ok () ∧ namedTool.Usable ∧
    ∃ e, (workbench.stageSelector namedTool .install .weak).2.staged = workbench.staged ++ [e] ∧
      e.action = .install ∧ e.isWeak = true := by
  have hreachable : namedTool.Reachable := ((Selector.Reachable.new.call _).call _).call _
  have hoccupied : namedTool.occupied = ["name"] := by decide
  obtain ⟨-, hrefused, -, hstage⟩ := stageSelector_of_reachable namedTool hreachable
  have hok : (workbench.stageSelector namedTool .install .weak).1 = .ok () := by decide +kernel
  have hlength : (workbench.stageSelector namedTool .install .weak).2.staged.length = 2 := by
    decide +kernel
  obtain ⟨husable, entries, hstaged, hentries⟩ := (hstage workbench .install .weak).2 hok
  rw [hstaged] at hlength ⊢
  obtain ⟨e, rfl⟩ : ∃ e, entries = [e] := List.length_eq_one_iff.mp (by simpa [workbench] using hlength)
  refine ⟨hreachable, hoccupied, ?_, hok, husable, e, rfl, hentries e (List.mem_singleton_self e)⟩
  exact (hrefused _ _).mpr ⟨"provides", "name", rfl, by rw [hoccupied]; simp, by decide, rfl⟩

end DepSolver
