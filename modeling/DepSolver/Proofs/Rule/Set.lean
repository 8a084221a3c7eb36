import DepSolver.Proofs.Order.Sort
import DepSolver.Proofs.Rule.Models

/-!
# Rule sets keep what was added

Adding a rule to a `RuleSet` may merge it with one that is there already, so what is stored is not
the list of what was added. What matters is that no constraint is lost: every added rule is there
under its key, with the same literals, and what is stored is weak only if it was weak each time.

A rule is found under its own number, whatever was added or disabled; so rules can be told apart by
their numbers, and disabling one takes just that one out of force.
-/

namespace DepSolver

theorem RuleKind.ctorIdx_inj {k l : RuleKind} (h : k.ctorIdx = l.ctorIdx) : k = l := by
  cases k <;> cases l <;> first | rfl | exact absurd h (by decide)

theorem Rule.jobNumber_inj : ∀ {a b : Option Nat},
    (match a with | some i => (i : Int) | none => -1) =
      (match b with | some i => (i : Int) | none => -1) → a = b
  | none, none, _ => rfl
  | none, some _, h => absurd h (by simp)
  | some _, none, h => absurd h (by simp)
  | some _, some _, h => congrArg some (Int.ofNat.inj h)

/-- **Rules of one key** are of one kind, come from one job entry and have the same literals. -/
theorem Rule.key_inj {r s : Rule} (h : r.key = s.key) :
    r.kind = s.kind ∧ r.job = s.job ∧ ∀ l, l ∈ r.literals ↔ l ∈ s.literals := by
  unfold Rule.key at h
  dsimp only at h
  injection h with hkind h
  injection h with hjob hlits
  refine ⟨RuleKind.ctorIdx_inj (by omega), ?_, fun l => ?_⟩
  · rw [Rule.jobNumber_inj hjob]
  · unfold Rule.sortedLiterals at hlits
    have hl : l ∈ sortBy compare r.literals ↔ l ∈ sortBy compare s.literals := by rw [hlits]
    rwa [mem_sortBy, mem_sortBy] at hl

namespace RuleSet

theorem mem_toList_iff {s : RuleSet} {r : Rule} : r ∈ s.toList ↔ ∃ i, s.get? i = some r := by
  unfold toList get?
  rw [Array.mem_toList_iff, Array.mem_iff_getElem?]

theorem mem_of_get? {s : RuleSet} {i : Nat} {r : Rule} (h : s.get? i = some r) : r ∈ s.toList :=
  mem_toList_iff.mpr ⟨i, h⟩

/-- A rule's number is its position. -/
theorem id_of_get? {s : RuleSet} {i : Nat} {r : Rule} (h : s.get? i = some r) : r.id = i :=
  s.numbered i r h

theorem get?_id {s : RuleSet} {r : Rule} (hr : r ∈ s.toList) : s.get? r.id = some r := by
  obtain ⟨i, hi⟩ := mem_toList_iff.mp hr
  rw [id_of_get? hi, hi]

/-- Rules are told apart by their numbers. -/
theorem eq_of_id {s : RuleSet} {r t : Rule} (hr : r ∈ s.toList) (ht : t ∈ s.toList)
    (hid : r.id = t.id) : r = t :=
  Option.some.inj (by rw [← get?_id hr, ← get?_id ht, hid])

theorem map_id (s : RuleSet) : s.toList.map (·.id) = List.range s.size := by
  refine List.ext_getElem (by simp [toList, size]) fun i h₁ h₂ => ?_
  rw [List.getElem_map, List.getElem_range]
  refine id_of_get? (s := s) ?_
  unfold get? toList
  rw [Array.getElem_toList, Array.getElem?_eq_getElem]

/-! ## Rules in force -/

theorem mem_enabled_iff {s : RuleSet} {r : Rule} :
    r ∈ s.enabled ↔ r ∈ s.toList ∧ r.disabled = false := by
  unfold enabled
  rw [List.mem_filter, Rule.isEnabled, Bool.not_eq_true']

theorem nodup_enabledIds (s : RuleSet) : s.enabledIds.Nodup := by
  refine List.Nodup.sublist (List.filter_sublist.map _) ?_
  rw [map_id]
  exact List.nodup_range

theorem get?_setDisabled (s : RuleSet) (id i : Nat) (b : Bool) :
    (s.setDisabled id b).get? i =
      if id = i then (s.get? i).map fun r => { r with disabled := b } else s.get? i := by
  unfold setDisabled get?
  exact Array.getElem?_modify

/-- Disabling a rule takes just that one out of force. -/
theorem mem_enabled_disable {s : RuleSet} {id : Nat} {r : Rule} :
    r ∈ (s.disable id).enabled ↔ r ∈ s.enabled ∧ r.id ≠ id := by
  rw [mem_enabled_iff, mem_enabled_iff, mem_toList_iff, mem_toList_iff]
  refine ⟨?_, ?_⟩
  · intro h
    obtain ⟨⟨i, hi⟩, hd⟩ := h
    rw [RuleSet.disable, get?_setDisabled] at hi
    split at hi
    · obtain ⟨r₀, -, rfl⟩ := Option.map_eq_some_iff.mp hi
      exact absurd hd (by simp)
    · rename_i hne
      exact ⟨⟨⟨i, hi⟩, hd⟩, fun he => hne (by rw [← he, id_of_get? hi])⟩
  · intro h
    obtain ⟨⟨⟨i, hi⟩, hd⟩, hne⟩ := h
    refine ⟨⟨i, ?_⟩, hd⟩
    rw [RuleSet.disable, get?_setDisabled, if_neg, hi]
    rw [← id_of_get? hi]
    exact fun he => hne he.symm

/-! ## What is stored of what was added -/

/-- A stored rule after a rule of the same key was added. -/
def weaken (weak : Bool) (r : Rule) : Rule := { r with weak := r.weak && weak }

theorem add_of_new {s : RuleSet} {r : Rule} (h : s.index[r.key]? = none) : s.add r =
    (s.size,
      { rules := s.rules.push { r with id := s.size }
        byKind := s.byKind.alter r.kind.ctorIdx fun ids => some ((ids.getD .empty).push s.size)
        index := s.index.insert r.key s.size
        numbered := s.numbered.push r }) := by
  unfold add
  rw [Std.TreeMap.get?_eq_getElem?, h]

theorem add_of_known {s : RuleSet} {r : Rule} {id : Nat} (h : s.index[r.key]? = some id) :
    s.add r =
      (id,
        { s with
          rules := s.rules.modify id (weaken r.weak)
          numbered := s.numbered.modify id fun _ => rfl }) := by
  unfold add
  rw [Std.TreeMap.get?_eq_getElem?, h]
  rfl

theorem get?_size (s : RuleSet) : s.get? s.size = none :=
  Array.getElem?_eq_none (Nat.le_refl _)

/-- A rule whose key is new goes to the end. -/
theorem get?_add_of_new {s : RuleSet} {r t : Rule} (h : s.index[r.key]? = none) {i : Nat} :
    (s.add r).2.get? i = some t ↔
      (i = s.size ∧ t = { r with id := s.size }) ∨ s.get? i = some t := by
  have hget : (s.add r).2.get? i =
      if i = s.size then some { r with id := s.size } else s.get? i := by
    rw [add_of_new h]
    exact Array.getElem?_push
  rw [hget]
  by_cases hi : i = s.size
  · rw [if_pos hi, hi, get?_size]
    simp [eq_comm]
  · rw [if_neg hi]
    exact (or_iff_right fun hn => hi hn.1).symm

theorem mem_toList_add_of_new {s : RuleSet} {r t : Rule} (h : s.index[r.key]? = none) :
    t ∈ (s.add r).2.toList ↔ t = { r with id := s.size } ∨ t ∈ s.toList := by
  simp only [mem_toList_iff, get?_add_of_new h, exists_or, exists_eq_left]

/-- A rule whose key is known at most stops the stored one from being weak. -/
theorem get?_add_of_known {s : RuleSet} {r t : Rule} {id : Nat}
    (h : s.index[r.key]? = some id) {i : Nat} : (s.add r).2.get? i = some t ↔
      ∃ u, s.get? i = some u ∧ t = if id = i then weaken r.weak u else u := by
  have hget : (s.add r).2.get? i =
      if id = i then (s.get? i).map (weaken r.weak) else s.get? i := by
    rw [add_of_known h]
    exact Array.getElem?_modify
  rw [hget]
  by_cases hi : id = i
  · rw [if_pos hi, Option.map_eq_some_iff]
    simp [hi, eq_comm]
  · rw [if_neg hi]
    simp [hi]

theorem key_weaken (weak : Bool) (i id : Nat) (u : Rule) :
    (if id = i then weaken weak u else u).key = u.key := by
  split <;> rfl

/--
**A rule set stands for the rules that were added to it.**

No two stored rules have one key, every added rule has a stored one of its key, and a stored rule is
weak exactly if everything added under its key was. None of it is about which rules are in force.
-/
structure Keeps (s : RuleSet) (added : List Rule) : Prop where
  /-- The index finds exactly the stored rules. -/
  index_iff : ∀ {key : RuleKey} {i : Nat},
    s.index[key]? = some i ↔ ∃ r, s.get? i = some r ∧ r.key = key
  /-- Every added rule is stored. -/
  stored : ∀ {r : Rule}, r ∈ added → ∃ t ∈ s.toList, t.key = r.key
  /-- A stored rule is weak if everything added under its key was. -/
  weak_iff : ∀ {t : Rule}, t ∈ s.toList →
    (t.weak = true ↔ ∀ r ∈ added, r.key = t.key → r.weak = true)

@[simp] theorem get?_empty (i : Nat) : empty.get? i = none := rfl

@[simp] theorem toList_empty : empty.toList = [] := rfl

theorem keeps_empty : empty.Keeps [] where
  index_iff := by
    intro key i
    rw [get?_empty]
    simp [empty]
  stored h := absurd h (by simp)
  weak_iff h := absurd h (by simp)

theorem Keeps.key_ne_of_new {s : RuleSet} {rules : List Rule} (h : s.Keeps rules)
    {r : Rule} (hi : s.index[r.key]? = none) {t : Rule} (ht : t ∈ s.toList) : t.key ≠ r.key := by
  intro he
  obtain ⟨i, hti⟩ := mem_toList_iff.mp ht
  rw [h.index_iff.mpr ⟨t, hti, he⟩] at hi
  exact absurd hi (by simp)

theorem Keeps.push {s : RuleSet} {rules : List Rule} (h : s.Keeps rules) {r : Rule}
    (hi : s.index[r.key]? = none) : (s.add r).2.Keeps (rules ++ [r]) := by
  refine ⟨fun {key i} => ?_, fun {t} ht => ?_, fun {t} ht => ?_⟩
  · have hindex : (s.add r).2.index = s.index.insert r.key s.size := by rw [add_of_new hi]
    rw [hindex, Std.TreeMap.getElem?_insert]
    simp only [get?_add_of_new hi]
    by_cases hk : r.key = key
    · -- the new rule is the only one of its key
      subst hk
      have hold : ∀ t, s.get? i = some t → t.key ≠ r.key := fun t ht =>
        h.key_ne_of_new hi (mem_of_get? ht)
      rw [if_pos Std.ReflCmp.compare_self]
      refine ⟨fun hs => ?_, fun hs => ?_⟩
      · exact ⟨_, .inl ⟨(Option.some.inj hs).symm, rfl⟩, rfl⟩
      · obtain ⟨t, ⟨rfl, -⟩ | ht, hkt⟩ := hs
        · rfl
        · exact absurd hkt (hold t ht)
    · rw [if_neg (by rwa [Std.LawfulEqCmp.compare_eq_iff_eq]), h.index_iff]
      refine ⟨fun hs => ?_, fun hs => ?_⟩
      · obtain ⟨t, ht, hkt⟩ := hs
        exact ⟨t, .inr ht, hkt⟩
      · obtain ⟨t, ⟨-, rfl⟩ | ht, hkt⟩ := hs
        · exact absurd hkt hk
        · exact ⟨t, ht, hkt⟩
  · rcases List.mem_append.mp ht with ht | ht
    · obtain ⟨u, hu, hku⟩ := h.stored ht
      exact ⟨u, (mem_toList_add_of_new hi).mpr (.inr hu), hku⟩
    · rw [List.mem_singleton.mp ht]
      exact ⟨_, (mem_toList_add_of_new hi).mpr (.inl rfl), rfl⟩
  · rw [List.forall_mem_append, List.forall_mem_singleton]
    rcases (mem_toList_add_of_new hi).mp ht with rfl | ht
    · -- nothing was added under this key before
      refine ⟨fun hw => ⟨fun u hu hku => ?_, fun _ => hw⟩, fun hall => hall.2 rfl⟩
      obtain ⟨x, hx, hkx⟩ := h.stored hu
      exact absurd (hkx.trans hku) (h.key_ne_of_new hi hx)
    · rw [h.weak_iff ht]
      exact (and_iff_left fun hkr => absurd hkr.symm (h.key_ne_of_new hi ht)).symm

theorem Keeps.merge {s : RuleSet} {rules : List Rule} (h : s.Keeps rules) {r : Rule}
    {id : Nat} (hi : s.index[r.key]? = some id) : (s.add r).2.Keeps (rules ++ [r]) := by
  obtain ⟨known, hknown, hkey⟩ := h.index_iff.mp hi
  refine ⟨fun {key i} => ?_, fun {t} ht => ?_, fun {t} ht => ?_⟩
  · -- every stored rule keeps its place and its key
    have hindex : (s.add r).2.index = s.index := by rw [add_of_known hi]
    rw [hindex, h.index_iff]
    simp only [get?_add_of_known hi]
    refine ⟨fun hs => ?_, fun hs => ?_⟩
    · obtain ⟨u, hu, hku⟩ := hs
      exact ⟨_, ⟨u, hu, rfl⟩, by rw [key_weaken, hku]⟩
    · obtain ⟨t, ⟨u, hu, rfl⟩, hkt⟩ := hs
      exact ⟨u, hu, by rw [← hkt, key_weaken]⟩
  · obtain ⟨u, hu, hku⟩ : ∃ u ∈ s.toList, u.key = t.key := by
      rcases List.mem_append.mp ht with ht | ht
      · exact h.stored ht
      · rw [List.mem_singleton.mp ht]
        exact ⟨known, mem_of_get? hknown, hkey⟩
    obtain ⟨i, hui⟩ := mem_toList_iff.mp hu
    exact ⟨_, mem_of_get? ((get?_add_of_known hi).mpr ⟨u, hui, rfl⟩), by rw [key_weaken, hku]⟩
  · obtain ⟨i, hti⟩ := mem_toList_iff.mp ht
    obtain ⟨u, hui, rfl⟩ := (get?_add_of_known hi).mp hti
    have hu := h.weak_iff (mem_of_get? hui)
    rw [key_weaken, List.forall_mem_append, List.forall_mem_singleton]
    by_cases he : id = i
    · -- the rule of this key becomes as hard as the new one
      have hku : r.key = u.key := by
        rw [← he, hknown] at hui
        rw [← Option.some.inj hui, hkey]
      rw [if_pos he, weaken, Bool.and_eq_true, hu]
      exact and_congr_right fun _ => ⟨fun hr _ => hr, fun hr => hr hku⟩
    · -- any other is of another key
      have hku : r.key ≠ u.key := by
        intro hku
        rw [h.index_iff.mpr ⟨u, hui, hku.symm⟩] at hi
        exact he (Option.some.inj hi).symm
      rw [if_neg he, hu]
      exact (and_iff_left fun hkr => absurd hkr hku).symm

theorem Keeps.add {s : RuleSet} {rules : List Rule} (h : s.Keeps rules) (r : Rule) :
    (s.add r).2.Keeps (rules ++ [r]) := by
  cases hi : s.index[r.key]? with
  | none => exact h.push hi
  | some id => exact h.merge hi

/-- A rule set to which rules were only added: besides, every stored rule is as one of them was. -/
structure Represents (s : RuleSet) (added : List Rule) : Prop extends Keeps s added where
  /-- Every stored rule was added. -/
  origin : ∀ {t : Rule}, t ∈ s.toList → ∃ r ∈ added,
    t.key = r.key ∧ t.literals = r.literals ∧ t.disabled = r.disabled

theorem represents_empty : empty.Represents [] where
  toKeeps := keeps_empty
  origin h := absurd h (by simp)

theorem Represents.add {s : RuleSet} {rules : List Rule} (h : s.Represents rules) (r : Rule) :
    (s.add r).2.Represents (rules ++ [r]) := by
  refine ⟨h.toKeeps.add r, fun {t} ht => ?_⟩
  cases hi : s.index[r.key]? with
  | none =>
    rcases (mem_toList_add_of_new hi).mp ht with rfl | ht
    · exact ⟨r, List.mem_append_right _ (List.mem_singleton_self r), rfl, rfl, rfl⟩
    · obtain ⟨u, hu, hku⟩ := h.origin ht
      exact ⟨u, List.mem_append_left _ hu, hku⟩
  | some id =>
    obtain ⟨i, hti⟩ := mem_toList_iff.mp ht
    obtain ⟨u, hui, rfl⟩ := (get?_add_of_known hi).mp hti
    obtain ⟨v, hv, hkv, hlv, hdv⟩ := h.origin (mem_of_get? hui)
    refine ⟨v, List.mem_append_left _ hv, by rw [key_weaken, hkv], ?_, ?_⟩
    · rw [← hlv]
      split <;> rfl
    · rw [← hdv]
      split <;> rfl

theorem Represents.addMany : ∀ {rules : List Rule} {s : RuleSet} {known : List Rule},
    s.Represents known → (s.addMany rules).Represents (known ++ rules)
  | [], s, known, h => by
      rw [List.append_nil]
      exact h
  | r :: rules, s, known, h => by
      rw [RuleSet.addMany, List.foldl_cons, ← List.singleton_append, ← List.append_assoc]
      exact Represents.addMany (h.add r)

theorem represents_ofList (rules : List Rule) : (ofList rules).Represents rules :=
  represents_empty.addMany

/-- Merging rules changes nothing of what they ask for together. -/
theorem Represents.models_iff {s : RuleSet} {rules : List Rule} (h : s.Represents rules)
    {α : Assignment} : α.Models s.toList ↔ α.Models rules := by
  refine ⟨?_, ?_⟩
  · intro hα r hr
    obtain ⟨t, ht, hkey⟩ := h.stored hr
    rw [← Assignment.satisfies_congr (Rule.key_inj hkey).2.2]
    exact hα t ht
  · intro hα t ht
    obtain ⟨r, hr, -, hlits, -⟩ := h.origin ht
    have hsame : α.satisfies t = α.satisfies r := Assignment.satisfies_congr fun l => by rw [hlits]
    rw [hsame]
    exact hα r hr

/-- **Merging rules changes neither what is asked for nor what may be given up.** -/
theorem Represents.modelsHard_iff {s : RuleSet} {rules : List Rule} (h : s.Represents rules)
    {α : Assignment} : α.ModelsHard s.toList ↔ α.ModelsHard rules := by
  refine ⟨?_, ?_⟩
  · intro hα r hr hhard
    obtain ⟨t, ht, hkey⟩ := h.stored hr
    have hweak : t.weak = false := by
      refine Bool.eq_false_iff.mpr fun hw => ?_
      rw [(h.weak_iff ht).mp hw r hr hkey.symm] at hhard
      exact absurd hhard (by simp)
    rw [← Assignment.satisfies_congr (Rule.key_inj hkey).2.2]
    exact hα t ht hweak
  · intro hα t ht hhard
    have hnot : ¬∀ r ∈ rules, r.key = t.key → r.weak = true := by
      intro hall
      rw [(h.weak_iff ht).mpr hall] at hhard
      exact absurd hhard (by simp)
    simp only [Classical.not_forall, Bool.not_eq_true] at hnot
    obtain ⟨r, hr, hkey, hw⟩ := hnot
    rw [← Assignment.satisfies_congr (Rule.key_inj hkey).2.2]
    exact hα r hr hw

end RuleSet

end DepSolver
