import DepSolver.Proofs.Rule.Models
import DepSolver.Search.Decisions

/-!
# Decisions: two views in step

`Decisions` keeps a map of signed levels and a queue. This file says what each operation does to the
map, and that the two views never disagree: `Coherent` holds of no decision at all and is kept by
everything that decides or takes back.

Several parts of the search decide a row of literals one after the other. What they have in common
is `Extends`: nothing that was decided changes, and everything new is decided at the current level.
-/

namespace DepSolver

namespace Decisions

/-! ## Signs -/

theorem pos_iff_neg_pos {v l : Int} (hl : l ≠ 0) :
    ¬(0 < v ↔ 0 < l) ↔ (0 < v ↔ 0 < -l) := by omega

theorem eq_of_natAbs_eq {l x : Int} (h : x.natAbs = l.natAbs) (hs : 0 < l ↔ 0 < x) : x = l := by
  omega

theorem natAbs_signed (l : Literal) (n : Nat) : (signed l n).natAbs = n := by
  unfold signed
  split
  · rfl
  · exact Int.natAbs_neg _

theorem signed_pos_iff (l : Literal) (n : Nat) : 0 < signed l (n + 1) ↔ 0 < l := by
  unfold signed isPositive
  by_cases h : 0 < l <;> simp only [h, decide_true, decide_false, if_true, iff_true, iff_false,
    Bool.false_eq_true, if_false] <;> omega

/-! ## Reading the map -/

@[simp] theorem signedLevel_neg (d : Decisions) (l : Literal) :
    d.signedLevel (-l) = d.signedLevel l := by
  rw [signedLevel, signedLevel, Int.natAbs_neg]

theorem value?_eq (d : Decisions) (l : Literal) : d.value? l =
    if d.signedLevel l = 0 then none
    else some (isPositive (d.signedLevel l) == isPositive l) := rfl

theorem satisfies_iff {d : Decisions} {l : Literal} :
    d.satisfies l = true ↔ d.signedLevel l ≠ 0 ∧ (0 < d.signedLevel l ↔ 0 < l) := by
  rw [satisfies, value?_eq]
  split
  · rename_i h
    simp [h]
  · rename_i h
    simp [h, isPositive, decide_eq_decide]

theorem refutes_iff {d : Decisions} {l : Literal} :
    d.refutes l = true ↔ d.signedLevel l ≠ 0 ∧ ¬(0 < d.signedLevel l ↔ 0 < l) := by
  rw [refutes, value?_eq]
  split
  · rename_i h
    simp [h]
  · rename_i h
    rw [beq_iff_eq, Option.some.injEq, beq_eq_false_iff_ne]
    unfold isPositive
    rw [ne_eq, decide_eq_decide]
    exact ⟨fun hn => ⟨h, hn⟩, fun hn => hn.2⟩

theorem isUndecided_iff {d : Decisions} {l : Literal} :
    d.isUndecided l = true ↔ d.signedLevel l = 0 := by
  unfold isUndecided isDecided
  rw [Bool.not_eq_true', bne_eq_false_iff_eq]

theorem isPresent_iff {d : Decisions} {id : PackageId} :
    d.isPresent id = true ↔ 0 < d.signedLevel id := decide_eq_true_iff

/-- A literal is true, false or undecided. -/
theorem satisfies_or_refutes_or_isUndecided (d : Decisions) (l : Literal) :
    d.satisfies l = true ∨ d.refutes l = true ∨ d.isUndecided l = true := by
  rw [satisfies_iff, refutes_iff, isUndecided_iff]
  by_cases h : d.signedLevel l = 0
  · exact .inr (.inr h)
  · by_cases hs : 0 < d.signedLevel l ↔ 0 < l
    · exact .inl ⟨h, hs⟩
    · exact .inr (.inl ⟨h, hs⟩)

theorem refutes_iff_satisfies_neg {d : Decisions} {l : Literal} (h : l ≠ 0) :
    d.refutes l = true ↔ d.satisfies (-l) = true := by
  rw [satisfies_iff, refutes_iff, signedLevel_neg]
  exact and_congr_right fun _ => pos_iff_neg_pos h

theorem not_refutes_of_satisfies {d : Decisions} {l : Literal} (h : d.satisfies l = true) :
    ¬d.refutes l = true := by
  rw [refutes_iff]
  rw [satisfies_iff] at h
  exact fun hn => hn.2 h.2

/-- A package is present exactly when its positive literal is true. -/
theorem isPresent_iff_satisfies {d : Decisions} {id : PackageId} (h : 0 < id) :
    d.isPresent id = true ↔ d.satisfies id = true := by
  rw [isPresent_iff, satisfies_iff]
  refine ⟨?_, ?_⟩
  · exact fun hp => ⟨Int.ne_of_gt hp, iff_of_true hp h⟩
  · exact fun hp => hp.2.mpr h

/-! ## Writing the map -/

theorem getD_setLevelOf (levels : Array Int) (p q : Nat) (v : Int) :
    (setLevelOf levels p v).getD q 0 = if q = p then v else levels.getD q 0 := by
  unfold setLevelOf Array.rightpad
  rw [Array.set!_eq_setIfInBounds, Array.getD_eq_getD_getElem?, Array.getElem?_setIfInBounds]
  by_cases hq : p = q
  · rw [if_pos hq, if_pos hq.symm, if_pos (by simp; omega), Option.getD_some]
  · rw [if_neg hq, if_neg (fun he => hq he.symm), Array.getElem?_append,
      Array.getD_eq_getD_getElem?]
    split
    · rfl
    · rename_i hlt
      rw [Array.getElem?_eq_none (by omega : levels.size ≤ q), Array.getElem?_replicate]
      split <;> rfl

/-- The decisions with one more, made at the current level. -/
def record (d : Decisions) (l : Literal) (reason : Reason) : Decisions :=
  { d with
    levels := setLevelOf d.levels l.natAbs (signed l (d.level + 1))
    queue := d.queue.push (l, reason) }

@[simp] theorem record_queue (d : Decisions) (l : Literal) (reason : Reason) :
    (d.record l reason).queue.toList = d.queue.toList ++ [(l, reason)] := Array.toList_push

theorem signedLevel_record (d : Decisions) (l x : Literal) (reason : Reason) :
    (d.record l reason).signedLevel x =
      if x.natAbs = l.natAbs then signed l (d.level + 1) else d.signedLevel x :=
  getD_setLevelOf ..

/-- Recording an undecided literal makes it true and changes no other. -/
theorem satisfies_record {d : Decisions} {l x : Literal} (reason : Reason)
    (hu : d.isUndecided l = true) (hl : l ≠ 0) :
    (d.record l reason).satisfies x = true ↔ x = l ∨ d.satisfies x = true := by
  rw [satisfies_iff, satisfies_iff, signedLevel_record]
  rw [isUndecided_iff, signedLevel] at hu
  split
  · rename_i hxl
    rw [signed_pos_iff, signedLevel, hxl, hu]
    refine ⟨?_, ?_⟩
    · intro hex
      obtain ⟨-, hs⟩ := hex
      exact .inl (eq_of_natAbs_eq hxl hs)
    · intro hor
      rcases hor with rfl | ⟨h0, -⟩
      · refine ⟨fun h0 => ?_, Iff.rfl⟩
        have hn := natAbs_signed x (d.level + 1)
        rw [h0] at hn
        exact absurd hn (by simp)
      · exact absurd rfl h0
  · rename_i hxl
    refine ⟨?_, ?_⟩
    · exact fun h => .inr h
    · intro hor
      rcases hor with rfl | h
      · exact absurd rfl hxl
      · exact h

theorem decide_of_satisfies {d : Decisions} {l : Literal} (reason : Reason)
    (h : d.satisfies l = true) : d.decide l reason = (true, d) := by
  rw [satisfies, beq_iff_eq] at h
  unfold Decisions.decide
  rw [h]

theorem decide_of_refutes {d : Decisions} {l : Literal} (reason : Reason)
    (h : d.refutes l = true) : d.decide l reason = (false, d) := by
  rw [refutes, beq_iff_eq] at h
  unfold Decisions.decide
  rw [h]

theorem decide_of_isUndecided {d : Decisions} {l : Literal} (reason : Reason)
    (h : d.isUndecided l = true) : d.decide l reason = (true, d.record l reason) := by
  rw [isUndecided_iff] at h
  unfold Decisions.decide
  rw [value?_eq, if_pos h]
  rfl

/-- Taking back makes everything above a level undecided and changes nothing else. -/
theorem signedLevel_revert (d : Decisions) (k : Nat) (l : Literal) :
    (d.revert k).signedLevel l =
      if k + 1 < (d.signedLevel l).natAbs then 0 else d.signedLevel l := by
  unfold revert signedLevel
  dsimp only
  rw [Array.getD_eq_getD_getElem?, Array.getElem?_map, Array.getD_eq_getD_getElem?]
  cases d.levels[l.natAbs]? with
  | none => simp
  | some v => rfl

theorem satisfies_revert {d : Decisions} {k : Nat} {l : Literal} :
    (d.revert k).satisfies l = true ↔
      d.satisfies l = true ∧ (d.signedLevel l).natAbs ≤ k + 1 := by
  rw [satisfies_iff, satisfies_iff, signedLevel_revert]
  split
  · rename_i h
    exact ⟨fun hn => absurd rfl hn.1, fun hn => absurd hn.2 (by omega)⟩
  · rename_i h
    exact ⟨fun hn => ⟨hn, by omega⟩, fun hn => hn.1⟩

@[simp] theorem signedLevel_setLevel (d : Decisions) (k : Nat) (l : Literal) :
    (d.setLevel k).signedLevel l = d.signedLevel l := rfl

@[simp] theorem satisfies_setLevel (d : Decisions) (k : Nat) (l : Literal) :
    (d.setLevel k).satisfies l = d.satisfies l := rfl

theorem signedLevel_withCapacity (n : Nat) (l : Literal) :
    (withCapacity n).signedLevel l = 0 := by
  unfold withCapacity signedLevel
  rw [Array.getD_eq_getD_getElem?, Array.getElem?_replicate]
  split <;> rfl

/-! ## The map and the queue -/

/-- The queue holds every decided package once, with the sign that the map records. -/
structure Coherent (d : Decisions) : Prop where
  /-- No package is decided twice. -/
  nodup : (d.queue.toList.map fun q => q.1.natAbs).Nodup
  /-- Every decision is about a package. -/
  nonzero : ∀ {q : Literal × Reason}, q ∈ d.queue.toList → q.1 ≠ 0
  /-- What is true is in the queue, and the other way round. -/
  satisfies_iff_mem : ∀ {l : Literal}, l ≠ 0 →
    (d.satisfies l = true ↔ ∃ reason, (l, reason) ∈ d.queue.toList)
  /-- Nothing is decided about 0, which names no package. -/
  signedLevel_zero : d.signedLevel 0 = 0

theorem coherent_of_undecided {d : Decisions} (hqueue : d.queue.toList = [])
    (hmap : ∀ l, d.signedLevel l = 0) : d.Coherent where
  nodup := by rw [hqueue]; exact List.nodup_nil
  nonzero := by rw [hqueue]; exact fun h => absurd h List.not_mem_nil
  satisfies_iff_mem := by
    intro l _
    rw [satisfies_iff, hmap, hqueue]
    exact iff_of_false (fun h => h.1 rfl) fun ⟨_, h⟩ => List.not_mem_nil h
  signedLevel_zero := hmap 0

theorem coherent_withCapacity (n : Nat) : (withCapacity n).Coherent :=
  coherent_of_undecided rfl (signedLevel_withCapacity n)

theorem Coherent.setLevel {d : Decisions} (h : d.Coherent) (k : Nat) : (d.setLevel k).Coherent :=
  ⟨h.nodup, h.nonzero, h.satisfies_iff_mem, h.signedLevel_zero⟩

theorem Coherent.incrementLevel {d : Decisions} (h : d.Coherent) : d.incrementLevel.Coherent :=
  h.setLevel _

theorem Coherent.satisfies_of_mem {d : Decisions} (h : d.Coherent) {q : Literal × Reason}
    (hq : q ∈ d.queue.toList) : d.satisfies q.1 = true :=
  (h.satisfies_iff_mem (h.nonzero hq)).mpr ⟨q.2, hq⟩

/-- The queue has an entry for every decided package and for no other. -/
theorem Coherent.signedLevel_ne_zero_iff {d : Decisions} (h : d.Coherent) {l : Literal} :
    d.signedLevel l ≠ 0 ↔ ∃ q ∈ d.queue.toList, q.1.natAbs = l.natAbs := by
  constructor
  · intro hl
    have hne : l ≠ 0 := fun h0 => hl (h0 ▸ h.signedLevel_zero)
    -- the literal or its opposite is true
    rcases d.satisfies_or_refutes_or_isUndecided l with hs | hr | hu
    · obtain ⟨reason, hq⟩ := (h.satisfies_iff_mem hne).mp hs
      exact ⟨_, hq, rfl⟩
    · rw [refutes_iff_satisfies_neg hne] at hr
      obtain ⟨reason, hq⟩ := (h.satisfies_iff_mem fun h0 => hne (Int.neg_eq_zero.mp h0)).mp hr
      exact ⟨_, hq, Int.natAbs_neg l⟩
    · exact absurd (isUndecided_iff.mp hu) hl
  · intro hex
    obtain ⟨q, hq, hql⟩ := hex
    have hs := (satisfies_iff.mp (h.satisfies_of_mem hq)).1
    rwa [signedLevel, hql] at hs

theorem Coherent.countP_queue {d : Decisions} (h : d.Coherent) (l : Literal) :
    (d.queue.toList.countP fun q => q.1.natAbs == l.natAbs) =
      if d.signedLevel l = 0 then 0 else 1 := by
  have hcount := h.nodup.count (a := l.natAbs)
  rw [List.count, List.countP_map] at hcount
  refine hcount.trans ?_
  have hmem := h.signedLevel_ne_zero_iff (l := l)
  rw [← List.mem_map] at hmem
  by_cases hl : d.signedLevel l = 0
  · rw [if_pos hl, if_neg fun hn => hmem.mpr hn hl]
  · rw [if_neg hl, if_pos (hmem.mp hl)]

theorem Coherent.record {d : Decisions} (h : d.Coherent) {l : Literal} (reason : Reason)
    (hu : d.isUndecided l = true) (hl : l ≠ 0) : (d.record l reason).Coherent := by
  refine ⟨?_, fun {q} hq => ?_, fun {x} hx => ?_, ?_⟩
  · rw [record_queue, List.map_append, List.nodup_append]
    refine ⟨h.nodup, by simp, ?_⟩
    intro a ha b hb he
    obtain ⟨q, hq, rfl⟩ := List.mem_map.mp ha
    rw [List.map_singleton, List.mem_singleton] at hb
    -- an entry for the same package would make the literal decided
    have hs := h.satisfies_of_mem hq
    rw [satisfies_iff, signedLevel, he, hb] at hs
    rw [isUndecided_iff, signedLevel] at hu
    exact hs.1 hu
  · rw [record_queue, List.mem_append, List.mem_singleton] at hq
    rcases hq with hq | rfl
    · exact h.nonzero hq
    · exact hl
  · rw [satisfies_record reason hu hl, h.satisfies_iff_mem hx, record_queue]
    refine ⟨?_, ?_⟩
    · intro hor
      rcases hor with rfl | ⟨r, hr⟩
      · exact ⟨reason, List.mem_append_right _ (List.mem_singleton_self _)⟩
      · exact ⟨r, List.mem_append_left _ hr⟩
    · intro hex
      obtain ⟨r, hr⟩ := hex
      rcases List.mem_append.mp hr with hr | hr
      · exact .inr ⟨r, hr⟩
      · rw [List.mem_singleton] at hr
        exact .inl (congrArg Prod.fst hr)
  · rw [signedLevel_record, if_neg, h.signedLevel_zero]
    exact fun he => hl (Int.natAbs_eq_zero.mp he.symm)

theorem mem_queue_revert {d : Decisions} {k : Nat} {q : Literal × Reason} :
    q ∈ (d.revert k).queue.toList ↔
      q ∈ d.queue.toList ∧ (d.revert k).signedLevel q.1 ≠ 0 := by
  unfold revert
  rw [Array.toList_filter, List.mem_filter, bne_iff_ne]
  rfl

theorem Coherent.revert {d : Decisions} (h : d.Coherent) (k : Nat) : (d.revert k).Coherent := by
  refine ⟨?_, fun hq => h.nonzero (mem_queue_revert.mp hq).1, fun {l} hl => ?_, ?_⟩
  · unfold Decisions.revert
    rw [Array.toList_filter]
    exact h.nodup.sublist (List.filter_sublist.map _)
  · rw [satisfies_revert, h.satisfies_iff_mem hl]
    refine ⟨?_, ?_⟩
    · intro hex
      obtain ⟨⟨reason, hr⟩, hk⟩ := hex
      -- an entry stays if its level does
      refine ⟨reason, mem_queue_revert.mpr ⟨hr, ?_⟩⟩
      have hs := (satisfies_iff.mp (h.satisfies_of_mem hr)).1
      rw [signedLevel_revert, if_neg (Nat.not_lt.mpr hk)]
      exact hs
    · intro hex
      obtain ⟨reason, hr⟩ := hex
      obtain ⟨hq, hn⟩ := mem_queue_revert.mp hr
      refine ⟨⟨reason, hq⟩, ?_⟩
      rw [signedLevel_revert] at hn
      split at hn
      · exact absurd rfl hn
      · rename_i hk
        exact Nat.not_lt.mp hk
  · rw [signedLevel_revert, h.signedLevel_zero]
    exact ite_self 0

/-! ## Deciding whatever was decided before -/

theorem signedLevel_override (d : Decisions) (l x : Literal) (reason : Reason) :
    (d.override l reason).signedLevel x =
      if x.natAbs = l.natAbs then signed l ((d.level? l).getD d.level + 1)
      else d.signedLevel x :=
  getD_setLevelOf ..

theorem satisfies_override {d : Decisions} {l x : Literal} (reason : Reason) :
    (d.override l reason).satisfies x = true ↔
      if x.natAbs = l.natAbs then (0 < l ↔ 0 < x) else d.satisfies x = true := by
  rw [satisfies_iff, signedLevel_override]
  split
  · rw [signed_pos_iff]
    refine and_iff_right fun h0 => ?_
    have hn := natAbs_signed l ((d.level? l).getD d.level + 1)
    rw [h0] at hn
    exact absurd hn (by simp)
  · exact satisfies_iff.symm

theorem mem_queue_override {d : Decisions} {l : Literal} {reason : Reason}
    {q : Literal × Reason} : q ∈ (d.override l reason).queue.toList ↔
      (q ∈ d.queue.toList ∧ q.1.natAbs ≠ l.natAbs) ∨ q = (l, reason) := by
  unfold override
  rw [Array.toList_push, List.mem_append, List.mem_singleton, Array.toList_filter, List.mem_filter,
    bne_iff_ne]

theorem Coherent.override {d : Decisions} (h : d.Coherent) {l : Literal} (reason : Reason)
    (hl : l ≠ 0) : (d.override l reason).Coherent := by
  refine ⟨?_, fun {q} hq => ?_, fun {x} hx => ?_, ?_⟩
  · unfold Decisions.override
    rw [Array.toList_push, Array.toList_filter, List.map_append, List.nodup_append]
    refine ⟨h.nodup.sublist (List.filter_sublist.map _), by simp, fun a ha b hb he => ?_⟩
    obtain ⟨q, hq, rfl⟩ := List.mem_map.mp ha
    rw [List.map_singleton, List.mem_singleton] at hb
    exact bne_iff_ne.mp (List.mem_filter.mp hq).2 (he.trans hb)
  · rcases mem_queue_override.mp hq with hq | rfl
    · exact h.nonzero hq.1
    · exact hl
  · rw [satisfies_override]
    simp only [mem_queue_override]
    by_cases habs : x.natAbs = l.natAbs
    · -- of this package only the new entry is left
      rw [if_pos habs]
      refine ⟨?_, ?_⟩
      · intro hs
        exact ⟨reason, .inr (by rw [eq_of_natAbs_eq habs hs])⟩
      · intro hor
        rcases hor with ⟨r, hr | hr⟩
        · exact absurd habs hr.2
        · have hxl : x = l := congrArg Prod.fst hr
          rw [hxl]
    · rw [if_neg habs, h.satisfies_iff_mem hx]
      refine ⟨?_, ?_⟩
      · intro hs
        obtain ⟨r, hr⟩ := hs
        exact ⟨r, .inl ⟨hr, habs⟩⟩
      · intro hor
        rcases hor with ⟨r, hr | hr⟩
        · exact ⟨r, hr.1⟩
        · have hxl : x = l := congrArg Prod.fst hr
          exact absurd (by rw [hxl]) habs
  · rw [signedLevel_override, if_neg, h.signedLevel_zero]
    exact fun he => hl (Int.natAbs_eq_zero.mp he.symm)

theorem find?_filter_natAbs (l x : Literal) : ∀ queue : List (Literal × Reason),
    (queue.filter fun q => q.1.natAbs != l.natAbs).find? (fun q => q.1.natAbs == x.natAbs) =
      if x.natAbs = l.natAbs then none else queue.find? fun q => q.1.natAbs == x.natAbs := by
  intro queue
  induction queue with
  | nil => exact (ite_self none).symm
  | cons q queue ih =>
    by_cases hq : q.1.natAbs = l.natAbs
    · rw [List.filter_cons_of_neg (by rw [bne_iff_ne]; exact fun hn => hn hq), ih]
      split
      · rfl
      · rename_i hx
        rw [List.find?_cons_of_neg (by rw [beq_iff_eq, hq]; exact fun he => hx he.symm)]
    · have hkeep : (q.1.natAbs != l.natAbs) = true := bne_iff_ne.mpr hq
      rw [List.filter_cons, if_pos hkeep, List.find?_cons, List.find?_cons, ih]
      by_cases hx : x.natAbs = l.natAbs
      · have hne : (q.1.natAbs == x.natAbs) = false := beq_false_of_ne (hx ▸ hq)
        rw [hne, if_pos hx]
      · rw [if_neg hx, if_neg hx]

/-- The reason behind an overridden decision is the new one, and no other changes. -/
theorem reason?_override (d : Decisions) (l x : Literal) (reason : Reason) :
    (d.override l reason).reason? x =
      if x.natAbs = l.natAbs then some reason else d.reason? x := by
  unfold override reason?
  rw [← Array.find?_toList, ← Array.find?_toList, Array.toList_push, Array.toList_filter,
    List.find?_append, find?_filter_natAbs]
  by_cases hx : x.natAbs = l.natAbs
  · have hfound : (l.natAbs == x.natAbs) = true := beq_iff_eq.mpr hx.symm
    rw [if_pos hx, if_pos hx, Option.none_or, List.find?_cons, hfound]
    rfl
  · rw [if_neg hx, if_neg hx, List.find?_cons_of_neg, List.find?_nil, Option.or_none]
    rw [beq_iff_eq]
    exact fun he => hx he.symm

/-! ## What is present -/

theorem mem_present {d : Decisions} {id : PackageId} :
    id ∈ d.present ↔ 0 ≤ id ∧ 0 < d.signedLevel id := by
  unfold present signedLevel
  rw [List.mem_map, Array.getD_eq_getD_getElem?]
  refine ⟨?_, ?_⟩
  · intro h
    obtain ⟨⟨v, n⟩, hmem, rfl⟩ := h
    rw [List.mem_filter, List.mem_zipIdx_iff_getElem?, Array.getElem?_toList,
      decide_eq_true_iff] at hmem
    refine ⟨Int.natCast_nonneg n, ?_⟩
    rw [Int.natAbs_natCast, hmem.1]
    exact hmem.2
  · intro h
    obtain ⟨hid, hv⟩ := h
    rcases hlevel : d.levels[id.natAbs]? with _ | v
    · rw [hlevel] at hv
      exact absurd hv (Int.lt_irrefl 0)
    · rw [hlevel] at hv
      refine ⟨(v, id.natAbs), ?_, Int.natAbs_of_nonneg hid⟩
      rw [List.mem_filter, List.mem_zipIdx_iff_getElem?, Array.getElem?_toList, decide_eq_true_iff]
      exact ⟨hlevel, hv⟩

/-- The packages listed as present are those whose positive literal is true. -/
theorem Coherent.mem_present {d : Decisions} (h : d.Coherent) {id : PackageId} :
    id ∈ d.present ↔ 0 < id ∧ d.isPresent id = true := by
  rw [Decisions.mem_present, isPresent_iff]
  refine and_congr_left fun hv => ⟨fun hid => ?_, Int.le_of_lt⟩
  refine Int.lt_iff_le_and_ne.mpr ⟨hid, fun h0 => ?_⟩
  rw [← h0, h.signedLevel_zero] at hv
  exact Int.lt_irrefl 0 hv

/-- What is present was decided so. -/
theorem Coherent.mem_queue_of_mem_present {d : Decisions} (h : d.Coherent) {id : PackageId}
    (hid : id ∈ d.present) : ∃ reason, ((id : Literal), reason) ∈ d.queue.toList := by
  obtain ⟨hpos, hpresent⟩ := h.mem_present.mp hid
  exact (h.satisfies_iff_mem (Int.ne_of_gt hpos)).mp ((isPresent_iff_satisfies hpos).mp hpresent)

end Decisions

end DepSolver
