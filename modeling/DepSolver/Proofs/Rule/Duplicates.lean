import Mathlib.Data.List.Basic
import DepSolver.Proofs.Rule.Set

/-!
# One rule for all that say the same

A rule set files its rules three times: in the order in which they came, by kind, and by what makes
two rules one. A rule that is there already is merged into the stored one, which may only become
harder by it. This file follows a rule set through any row of changes and keeps a record beside it
of every rule that was added and the number it was given. Against that record nothing is lost and
nothing is stored twice, and the three files agree.

The index knows exactly the stored rules (`Keeps`), so a number found there is the number of the one
stored rule of that key; and rules of one key are those of one kind, one job entry and the same
literals, in whatever order these stand.
-/

namespace DepSolver

/-- Rules of one kind and one job entry that have the same literals are of one key. -/
theorem Rule.key_eq_of {r s : Rule} (hkind : r.kind = s.kind) (hjob : r.job = s.job)
    (hlits : ∀ l, l ∈ r.literals ↔ l ∈ s.literals) : r.key = s.key := by
  have hperm : r.literals.Perm s.literals :=
    (List.perm_ext_iff_of_nodup r.nodup s.nodup).mpr hlits
  have hsorted : ∀ t : Rule, t.sortedLiterals.Pairwise (· ≤ ·) := by
    intro t
    unfold Rule.sortedLiterals
    refine pairwise_sortBy (P := fun _ => True) (R := fun a b : Int => a ≤ b)
      (fun a b c _ _ _ => Int.le_trans) ?_ ?_ (fun _ _ => trivial)
    · intro a b _ _ hlt
      exact Int.le_of_lt (Int.compare_eq_lt.mp hlt)
    · intro a b _ _ hge
      exact Int.not_lt.mp fun hlt => hge (Int.compare_eq_lt.mpr hlt)
  have hlist : r.sortedLiterals = s.sortedLiterals := by
    refine List.Perm.eq_of_pairwise (fun a b _ _ => Int.le_antisymm) (hsorted r) (hsorted s) ?_
    exact (sortBy_perm compare _).trans (hperm.trans (sortBy_perm compare _).symm)
  unfold Rule.key
  rw [hkind, hjob, hlist]

namespace RuleSet

/-! ## Where an added rule is found -/

/-- A key is stored in one place. -/
theorem Keeps.eq_of_key {s : RuleSet} {added : List Rule} (h : s.Keeps added) {i j : Nat}
    {t u : Rule} (ht : s.get? i = some t) (hu : s.get? j = some u) (hkey : t.key = u.key) :
    i = j := by
  have hi : s.index[u.key]? = some i := h.index_iff.mpr ⟨t, ht, hkey⟩
  have hj : s.index[u.key]? = some j := h.index_iff.mpr ⟨u, hu, rfl⟩
  rw [hi] at hj
  exact Option.some.inj hj

/-- Under the number that a rule is given stands a rule of its key. -/
theorem Keeps.get?_fst_add {s : RuleSet} {added : List Rule} (h : s.Keeps added) (r : Rule) :
    ∃ t, (s.add r).2.get? (s.add r).1 = some t ∧ t.key = r.key := by
  cases hi : s.index[r.key]? with
  | none =>
    refine ⟨{ r with id := s.size }, (get?_add_of_new hi).mpr (.inl ⟨?_, rfl⟩), rfl⟩
    rw [add_of_new hi]
  | some id =>
    obtain ⟨known, hknown, hkey⟩ := h.index_iff.mp hi
    refine ⟨weaken r.weak known, (get?_add_of_known hi).mpr ⟨known, ?_, ?_⟩, hkey⟩
    · rw [add_of_known hi, hknown]
    · rw [add_of_known hi, if_pos rfl]

/-- What is stored stays where it is. -/
theorem exists_get?_add {s : RuleSet} {i : Nat} {u : Rule} (hu : s.get? i = some u) (r : Rule) :
    ∃ t, (s.add r).2.get? i = some t ∧ t.key = u.key := by
  cases hi : s.index[r.key]? with
  | none => exact ⟨u, (get?_add_of_new hi).mpr (.inr hu), rfl⟩
  | some id => exact ⟨_, (get?_add_of_known hi).mpr ⟨u, hu, rfl⟩, key_weaken ..⟩

/-- Only the added rule is new. -/
theorem get?_of_get?_add {s : RuleSet} {r t : Rule} {i : Nat} (ht : (s.add r).2.get? i = some t) :
    i = (s.add r).1 ∨ ∃ u, s.get? i = some u := by
  cases hi : s.index[r.key]? with
  | none =>
    rcases (get?_add_of_new hi).mp ht with ⟨rfl, -⟩ | hu
    · exact .inl (by rw [add_of_new hi])
    · exact .inr ⟨t, hu⟩
  | some id =>
    obtain ⟨u, hu, -⟩ := (get?_add_of_known hi).mp ht
    exact .inr ⟨u, hu⟩

theorem Keeps.setDisabled {s : RuleSet} {added : List Rule} (h : s.Keeps added) (id : Nat)
    (b : Bool) : (s.setDisabled id b).Keeps added := by
  -- every rule stays where it is and keeps its key
  have hget : ∀ {i : Nat} {t : Rule}, (s.setDisabled id b).get? i = some t →
      ∃ u, s.get? i = some u ∧ u.key = t.key ∧ u.weak = t.weak := by
    intro i t ht
    rw [get?_setDisabled] at ht
    split at ht
    · obtain ⟨u, hu, rfl⟩ := Option.map_eq_some_iff.mp ht
      exact ⟨u, hu, rfl, rfl⟩
    · exact ⟨t, ht, rfl, rfl⟩
  have hset : ∀ {i : Nat} {u : Rule}, s.get? i = some u →
      ∃ t, (s.setDisabled id b).get? i = some t ∧ t.key = u.key := by
    intro i u hu
    rw [get?_setDisabled, hu]
    split
    · exact ⟨_, rfl, rfl⟩
    · exact ⟨u, rfl, rfl⟩
  refine ⟨fun {key i} => ?_, fun {r} hr => ?_, fun {t} ht => ?_⟩
  · show s.index[key]? = some i ↔ _
    rw [h.index_iff]
    constructor
    · intro hs
      obtain ⟨u, hu, rfl⟩ := hs
      exact hset hu
    · intro hs
      obtain ⟨t, ht, rfl⟩ := hs
      obtain ⟨u, hu, hkey, -⟩ := hget ht
      exact ⟨u, hu, hkey⟩
  · obtain ⟨u, hu, hkey⟩ := h.stored hr
    obtain ⟨i, hi⟩ := mem_toList_iff.mp hu
    obtain ⟨t, ht, htu⟩ := hset hi
    exact ⟨t, mem_of_get? ht, htu.trans hkey⟩
  · obtain ⟨i, hi⟩ := mem_toList_iff.mp ht
    obtain ⟨u, hu, hkey, hweak⟩ := hget hi
    rw [← hkey, ← hweak]
    exact h.weak_iff (mem_of_get? hu)

/-! ## Rules by kind -/

/-- Every rule is filed under its kind, and the numbers ascend. -/
def Filed (s : RuleSet) : Prop :=
  ∀ kind : RuleKind,
    (s.idsOfKind kind).toList = (s.toList.filter fun r => r.kind == kind).map (·.id)

theorem filed_empty : empty.Filed := by
  intro kind
  have hnone : empty.byKind[kind.ctorIdx]? = none := Std.TreeMap.getElem?_emptyc
  unfold idsOfKind
  rw [hnone, toList_empty]
  rfl

/-- To change rules but for their kinds and numbers refiles none of them. -/
theorem filed_of_modify {s s' : RuleSet} (h : s.Filed) (hkinds : s'.byKind = s.byKind) (id : Nat)
    (change : Rule → Rule) (hrules : s'.rules = s.rules.modify id change)
    (hkind : ∀ r, (change r).kind = r.kind) (hid : ∀ r, (change r).id = r.id) : s'.Filed := by
  -- kinds and numbers tell all that filing looks at
  have hsame : (s'.toList.map fun r => (r.kind, r.id)) = s.toList.map fun r => (r.kind, r.id) := by
    refine List.ext_getElem? fun i => ?_
    unfold toList
    rw [List.getElem?_map, List.getElem?_map, Array.getElem?_toList, Array.getElem?_toList, hrules,
      Array.getElem?_modify]
    by_cases hi : id = i
    · rw [if_pos hi, Option.map_map]
      refine Option.map_congr fun r _ => ?_
      exact Prod.ext (hkind r) (hid r)
    · rw [if_neg hi]
  have hfiled : ∀ (t : RuleSet) (kind : RuleKind),
      (t.toList.filter fun r => r.kind == kind).map (·.id) =
        ((t.toList.map fun r => (r.kind, r.id)).filter fun p => p.1 == kind).map (·.2) := by
    intro t kind
    rw [List.filter_map, List.map_map]
    rfl
  intro kind
  rw [hfiled, hsame, ← hfiled, ← h kind]
  unfold idsOfKind
  rw [hkinds]

theorem idsOfKind_add_of_new {s : RuleSet} {r : Rule} (h : s.index[r.key]? = none)
    (kind : RuleKind) : (s.add r).2.idsOfKind kind =
      if r.kind = kind then (s.idsOfKind kind).push s.size else s.idsOfKind kind := by
  rw [add_of_new h]
  unfold idsOfKind
  rw [Std.TreeMap.getElem?_alter]
  by_cases hkind : r.kind = kind
  · rw [if_pos hkind, if_pos (Std.LawfulEqCmp.compare_eq_iff_eq.mpr (congrArg _ hkind)), hkind]
    rfl
  · rw [if_neg hkind, if_neg]
    rw [Std.LawfulEqCmp.compare_eq_iff_eq]
    exact fun he => hkind (RuleKind.ctorIdx_inj he)

theorem Filed.add {s : RuleSet} (h : s.Filed) (r : Rule) : (s.add r).2.Filed := by
  cases hi : s.index[r.key]? with
  | none =>
    have hlist : (s.add r).2.toList = s.toList ++ [{ r with id := s.size }] := by
      rw [add_of_new hi]
      exact Array.toList_push
    intro kind
    rw [idsOfKind_add_of_new hi, hlist, List.filter_append, List.map_append, ← h kind]
    by_cases hkind : r.kind = kind
    · have hfiled : (r.kind == kind) = true := beq_iff_eq.mpr hkind
      rw [if_pos hkind, Array.toList_push, List.filter_singleton, hfiled]
      rfl
    · have helse : (r.kind == kind) = false := beq_false_of_ne hkind
      rw [if_neg hkind, List.filter_singleton, helse]
      exact (List.append_nil _).symm
  | some id =>
    refine filed_of_modify h ?_ id (weaken r.weak) ?_ (fun _ => rfl) fun _ => rfl
    · rw [add_of_known hi]
    · rw [add_of_known hi]

theorem Filed.setDisabled {s : RuleSet} (h : s.Filed) (id : Nat) (b : Bool) :
    (s.setDisabled id b).Filed :=
  filed_of_modify h rfl id (fun r => { r with disabled := b }) rfl (fun _ => rfl) fun _ => rfl

theorem pairwise_id (s : RuleSet) : s.toList.Pairwise fun r t => r.id < t.id := by
  have hids : (s.toList.map (·.id)).Pairwise (· < ·) := by
    rw [map_id]
    exact List.pairwise_lt_range
  exact List.pairwise_map.mp hids

/-- The rules of a kind are all there are of it, in order. -/
theorem Filed.ofKind_eq {s : RuleSet} (h : s.Filed) (kind : RuleKind) :
    s.ofKind kind = s.toList.filter fun r => r.kind == kind := by
  unfold ofKind
  rw [h kind, List.filterMap_map]
  have hfound : ∀ r ∈ s.toList.filter (fun r => r.kind == kind), (s.get? ∘ (·.id)) r = some r :=
    fun r hr => get?_id (List.mem_filter.mp hr).1
  rw [List.filterMap_congr hfound, List.filterMap_some]

/-! ## Changes and their record -/

/-- A change to a rule set. -/
inductive Change where
  | add (r : Rule)
  | disable (id : Nat)
  | enable (id : Nat)

/-- A rule set, and every rule that was added to it with the number that it was given. -/
structure Record where
  rules : RuleSet := .empty
  given : List (Rule × Nat) := []

namespace Record

/-- Changes the rule set and keeps the record. -/
def change (c : Record) : Change → Record
  | .add r => { rules := (c.rules.add r).2, given := c.given ++ [(r, (c.rules.add r).1)] }
  | .disable id => { c with rules := c.rules.disable id }
  | .enable id => { c with rules := c.rules.enable id }

/-- An empty rule set after a row of changes. -/
def after (changes : List Change) : Record := changes.foldl change {}

/-- The rule set is in step with the record. -/
structure InStep (c : Record) : Prop where
  keeps : c.rules.Keeps (c.given.map Prod.fst)
  filed : c.rules.Filed
  /-- Under the number that a rule was given stands a rule of its key. -/
  found : ∀ {r : Rule} {id : Nat}, (r, id) ∈ c.given →
    ∃ t, c.rules.get? id = some t ∧ t.key = r.key
  /-- No rule is stored that was not added. -/
  rooted : ∀ {id : Nat} {t : Rule}, c.rules.get? id = some t → ∃ r, (r, id) ∈ c.given

theorem inStep_start : InStep {} where
  keeps := keeps_empty
  filed := filed_empty
  found h := absurd h (by simp)
  rooted h := absurd h (by simp)

theorem InStep.add {c : Record} (h : c.InStep) (r : Rule) : (c.change (.add r)).InStep := by
  refine ⟨?_, h.filed.add r, fun {x id} hx => ?_, fun {id t} ht => ?_⟩
  · show (c.rules.add r).2.Keeps ((c.given ++ [(r, (c.rules.add r).1)]).map Prod.fst)
    rw [List.map_append]
    exact h.keeps.add r
  · rcases List.mem_append.mp hx with hold | hnew
    · obtain ⟨u, hu, hkey⟩ := h.found hold
      obtain ⟨t, ht, htu⟩ := exists_get?_add hu r
      exact ⟨t, ht, htu.trans hkey⟩
    · obtain ⟨rfl, rfl⟩ := Prod.mk.inj (List.mem_singleton.mp hnew)
      exact h.keeps.get?_fst_add x
  · rcases get?_of_get?_add ht with rfl | ⟨u, hu⟩
    · exact ⟨r, List.mem_append_right _ (List.mem_singleton_self _)⟩
    · obtain ⟨x, hx⟩ := h.rooted hu
      exact ⟨x, List.mem_append_left _ hx⟩

/-- To put a rule out of force or back into it touches nothing that the record speaks of. -/
theorem InStep.setDisabled {c : Record} (h : c.InStep) (id : Nat) (b : Bool) :
    InStep { c with rules := c.rules.setDisabled id b } where
  keeps := h.keeps.setDisabled id b
  filed := h.filed.setDisabled id b
  found := by
    intro r i hr
    obtain ⟨t, ht, hkey⟩ := h.found hr
    rw [get?_setDisabled, ht]
    split
    · exact ⟨_, rfl, hkey⟩
    · exact ⟨t, rfl, hkey⟩
  rooted := by
    intro i t ht
    rw [get?_setDisabled] at ht
    split at ht
    · obtain ⟨u, hu, -⟩ := Option.map_eq_some_iff.mp ht
      exact h.rooted hu
    · exact h.rooted ht

theorem InStep.change {c : Record} (h : c.InStep) (x : Change) : (c.change x).InStep := by
  cases x with
  | add r => exact h.add r
  | disable id => exact h.setDisabled id true
  | enable id => exact h.setDisabled id false

theorem inStep_after (changes : List Change) : (after changes).InStep := by
  have hrun : ∀ (changes : List Change) (c : Record), c.InStep →
      (changes.foldl Record.change c).InStep := by
    intro changes
    induction changes with
    | nil => exact fun _ h => h
    | cons x changes ih => exact fun c h => ih (c.change x) (h.change x)
  exact hrun changes {} inStep_start

/-- What was added under a number is what was added of the key that stands there. -/
theorem InStep.mem_given_iff {c : Record} (h : c.InStep) {id : Nat} {t r : Rule}
    (ht : c.rules.get? id = some t) :
    (r, id) ∈ c.given ↔ r ∈ c.given.map Prod.fst ∧ r.key = t.key := by
  constructor
  · intro hr
    obtain ⟨u, hu, hkey⟩ := h.found hr
    rw [ht] at hu
    obtain rfl := Option.some.inj hu
    exact ⟨List.mem_map_of_mem hr, hkey.symm⟩
  · intro hr
    obtain ⟨hmem, hkey⟩ := hr
    obtain ⟨⟨x, i⟩, hx, rfl⟩ := List.mem_map.mp hmem
    obtain ⟨u, hu, hux⟩ := h.found hx
    rwa [h.keeps.eq_of_key ht hu (hkey.symm.trans hux.symm)]

/-- What a rule set owes to the record of what was added to it. -/
structure Faithful (c : Record) : Prop where
  /-- A rule's number is its position. -/
  id_eq : ∀ {i t}, c.rules.get? i = some t → t.id = i
  /-- No two stored rules agree in kind, job entry and set of literals. -/
  distinct : ∀ {i j t u}, c.rules.get? i = some t → c.rules.get? j = some u → t.kind = u.kind →
    t.job = u.job → (∀ l, l ∈ t.literals ↔ l ∈ u.literals) → i = j
  /-- Every added rule is represented under the number it was given. -/
  represented : ∀ {r id}, (r, id) ∈ c.given → ∃ t, c.rules.get? id = some t ∧
    t.kind = r.kind ∧ t.job = r.job ∧ ∀ l, l ∈ t.literals ↔ l ∈ r.literals
  /-- Something was added under every number in use. -/
  rooted : ∀ {i t}, c.rules.get? i = some t → ∃ r, (r, i) ∈ c.given
  /-- A stored rule is weak if everything that was added under its number was. -/
  weak_iff : ∀ {i t}, c.rules.get? i = some t →
    (t.weak = true ↔ ∀ r, (r, i) ∈ c.given → r.weak = true)
  /-- The rules of a kind are exactly those stored of it, in the order of their numbers. -/
  mem_ofKind_iff : ∀ {kind r}, r ∈ c.rules.ofKind kind ↔ r ∈ c.rules.toList ∧ r.kind = kind
  pairwise_ofKind : ∀ {kind}, (c.rules.ofKind kind).Pairwise fun r t => r.id < t.id

/-- **Merging loses no constraint.** After whatever changes, a rule set is faithful to the record of
what was added to it. -/
theorem faithful_after (changes : List Change) : (after changes).Faithful := by
  have h := inStep_after changes
  refine ⟨id_of_get?, ?_, ?_, h.rooted, ?_, ?_, ?_⟩
  · intro i j t u ht hu hkind hjob hlits
    exact h.keeps.eq_of_key ht hu (Rule.key_eq_of hkind hjob hlits)
  · intro r id hr
    obtain ⟨t, ht, hkey⟩ := h.found hr
    exact ⟨t, ht, Rule.key_inj hkey⟩
  · intro i t ht
    rw [h.keeps.weak_iff (mem_of_get? ht)]
    refine ⟨fun hweak r hr => ?_, fun hweak r hr hkey => ?_⟩
    · obtain ⟨hmem, hkey⟩ := (h.mem_given_iff ht).mp hr
      exact hweak r hmem hkey
    · exact hweak r ((h.mem_given_iff ht).mpr ⟨hr, hkey⟩)
  · intro kind r
    rw [h.filed.ofKind_eq, List.mem_filter, beq_iff_eq]
  · intro kind
    rw [h.filed.ofKind_eq]
    exact (pairwise_id _).filter _

end Record

end RuleSet

end DepSolver
