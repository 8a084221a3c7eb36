import Mathlib.Data.Nat.Bitwise
import DepSolver.PackageSet

/-!
# A bitmap is a set

A `PackageSet` is seen through membership. This file says what each operation does to the members,
so that nothing after it speaks of words and bits. The one fact about bits behind all of it is that
masking a word asks for the bit of its number.
-/

namespace DepSolver

namespace PackageSet

/-! ## Bits of a word -/

theorem toNat_mask (n : Nat) : (mask n).toNat = 2 ^ (n % 64) := by
  have hn : n % 64 < 64 := Nat.mod_lt _ (by decide)
  unfold mask
  rw [UInt64.toNat_shiftLeft, UInt64.toNat_ofNat_of_lt' (Nat.lt_trans hn (by decide)),
    Nat.mod_eq_of_lt hn, UInt64.toNat_one, Nat.one_shiftLeft]
  exact Nat.mod_eq_of_lt (Nat.pow_lt_pow_right (by decide) hn)

/-- Masking a word asks for one bit of its number. -/
theorem and_mask_bne_zero (w : UInt64) (n : Nat) :
    (w &&& mask n != 0) = w.toNat.testBit (n % 64) := by
  rw [Bool.eq_iff_iff, bne_iff_ne, ne_eq, ← UInt64.toNat_inj, UInt64.toNat_and, toNat_mask,
    Nat.and_two_pow]
  cases w.toNat.testBit (n % 64)
  · simp
  · simp only [Bool.toNat_true, Nat.one_mul, iff_true]
    exact Nat.ne_of_gt (Nat.pow_pos (by decide))

theorem bit_eq (s : PackageSet) (n : Nat) :
    s.bit n = (s.word (n / 64)).toNat.testBit (n % 64) := and_mask_bne_zero ..

theorem testBit_mask (n k : Nat) : (mask n).toNat.testBit k = decide (n % 64 = k) := by
  rw [toNat_mask, Nat.testBit_two_pow]

theorem word_eq (s : PackageSet) (i : Nat) : s.word i = s.words[i]?.getD 0 :=
  Array.getD_eq_getD_getElem?

/-! ## Membership -/

theorem eq_of_toNat_eq {a b : Int} (ha : 0 < a) (hb : 0 < b) (h : a.toNat = b.toNat) : a = b := by
  omega

theorem toNat_pos {a : Int} (h : 0 < a) : 0 < a.toNat := by omega

theorem contains_iff {s : PackageSet} {id : PackageId} :
    s.contains id = true ↔ 0 < id ∧ s.bit id.toNat = true := by
  unfold contains
  rw [Bool.and_eq_true, decide_eq_true_iff]

theorem pos_of_contains {s : PackageSet} {id : PackageId} (h : s.contains id = true) : 0 < id :=
  (contains_iff.mp h).1

@[simp] theorem contains_empty (id : PackageId) : empty.contains id = false := by
  have hword : empty.words[id.toNat / 64]? = none := rfl
  rw [← Bool.not_eq_true, contains_iff, bit_eq, word_eq, hword]
  simp

theorem word_insert {s : PackageSet} {id : PackageId} (h : 0 < id) (i : Nat) :
    (s.insert id).word i =
      if id.toNat / 64 = i then s.word i ||| mask id.toNat else s.word i := by
  have hpad : (s.words.rightpad (id.toNat / 64 + 1) 0)[i]?.getD 0 = s.word i := by
    unfold Array.rightpad
    rw [word_eq, Array.getElem?_append]
    split
    · rfl
    · rename_i hlt
      rw [Array.getElem?_eq_none (Nat.not_lt.mp hlt), Array.getElem?_replicate]
      split <;> rfl
  unfold insert
  rw [if_pos h, word_eq, Array.getElem?_modify, ← hpad]
  split
  · rename_i hi
    have hlt : i < (s.words.rightpad (id.toNat / 64 + 1) 0).size := by
      unfold Array.rightpad
      rw [Array.size_append, Array.size_replicate]
      omega
    rw [Array.getElem?_eq_getElem hlt]
    rfl
  · rfl

theorem bit_insert {s : PackageSet} {id : PackageId} (h : 0 < id) (n : Nat) :
    (s.insert id).bit n = true ↔ s.bit n = true ∨ n = id.toNat := by
  rw [bit_eq, bit_eq, word_insert h]
  split
  · rename_i hi
    rw [UInt64.toNat_or, Nat.testBit_or, testBit_mask, Bool.or_eq_true, decide_eq_true_iff]
    refine or_congr_right ⟨fun hm => ?_, fun he => by rw [he]⟩
    rw [← Nat.div_add_mod n 64, ← hi, ← hm, Nat.div_add_mod]
  · rename_i hi
    refine (or_iff_left fun he => ?_).symm
    rw [he] at hi
    exact hi rfl

/-- Adding a package adds just that one. -/
theorem contains_insert {s : PackageSet} {id x : PackageId} :
    (s.insert id).contains x = true ↔ s.contains x = true ∨ (0 < id ∧ x = id) := by
  by_cases h : 0 < id
  · rw [contains_iff, contains_iff, bit_insert h]
    refine ⟨?_, ?_⟩
    · intro hor
      rcases hor with ⟨hx, hb | hn⟩
      · exact .inl ⟨hx, hb⟩
      · exact .inr ⟨h, eq_of_toNat_eq hx h hn⟩
    · intro hor
      rcases hor with ⟨hx, hb⟩ | ⟨-, rfl⟩
      · exact ⟨hx, .inl hb⟩
      · exact ⟨h, .inr rfl⟩
  · unfold insert
    rw [if_neg h]
    exact (or_iff_left fun hn => h hn.1).symm

theorem contains_insertMany {x : PackageId} : ∀ {ids : List PackageId} {s : PackageSet},
    (s.insertMany ids).contains x = true ↔ s.contains x = true ∨ (0 < x ∧ x ∈ ids)
  | [], s => by simp [insertMany]
  | id :: ids, s => by
      rw [insertMany, List.foldl_cons]
      show ((s.insert id).insertMany ids).contains x = true ↔ _
      rw [contains_insertMany, contains_insert, List.mem_cons, or_assoc]
      refine or_congr_right ⟨?_, ?_⟩
      · intro h
        rcases h with ⟨hpos, rfl⟩ | ⟨hpos, hmem⟩
        · exact ⟨hpos, .inl rfl⟩
        · exact ⟨hpos, .inr hmem⟩
      · intro h
        rcases h with ⟨hpos, rfl | hmem⟩
        · exact .inl ⟨hpos, rfl⟩
        · exact .inr ⟨hpos, hmem⟩

/-- The set of a list holds the packages of the list. -/
theorem contains_ofList {ids : List PackageId} {x : PackageId} :
    (ofList ids).contains x = true ↔ 0 < x ∧ x ∈ ids := by
  rw [ofList, contains_insertMany, contains_empty]
  exact or_iff_right Bool.false_ne_true

theorem word_inter (s t : PackageSet) (i : Nat) : (s.inter t).word i = s.word i &&& t.word i := by
  unfold inter
  rw [word_eq, Array.getElem?_mapIdx, word_eq s]
  cases s.words[i]? with
  | none => simp
  | some w => rfl

theorem contains_inter {s t : PackageSet} {x : PackageId} :
    (s.inter t).contains x = true ↔ s.contains x = true ∧ t.contains x = true := by
  rw [contains_iff, contains_iff, contains_iff, bit_eq, bit_eq, bit_eq, word_inter,
    UInt64.toNat_and, Nat.testBit_and, Bool.and_eq_true]
  exact ⟨fun h => ⟨⟨h.1, h.2.1⟩, h.1, h.2.2⟩, fun h => ⟨h.1.1, h.1.2, h.2.2⟩⟩

theorem word_union (s t : PackageSet) (i : Nat) : (s.union t).word i = s.word i ||| t.word i := by
  unfold union
  rw [word_eq, Array.getElem?_zipWithAll, word_eq s, word_eq t]
  cases s.words[i]? <;> cases t.words[i]? <;> simp

theorem contains_union {s t : PackageSet} {x : PackageId} :
    (s.union t).contains x = true ↔ s.contains x = true ∨ t.contains x = true := by
  rw [contains_iff, contains_iff, contains_iff, bit_eq, bit_eq, bit_eq, word_union,
    UInt64.toNat_or, Nat.testBit_or, Bool.or_eq_true, and_or_left]

theorem testBit_not (w : UInt64) {k : Nat} (hk : k < 64) :
    (~~~w).toNat.testBit k = !w.toNat.testBit k := by
  show (~~~w).toBitVec.toNat.testBit k = !w.toBitVec.toNat.testBit k
  rw [BitVec.testBit_toNat, BitVec.testBit_toNat, UInt64.toBitVec_not, BitVec.getLsbD_not,
    decide_eq_true hk, Bool.true_and]

theorem word_diff (s t : PackageSet) (i : Nat) :
    (s.diff t).word i = s.word i &&& ~~~t.word i := by
  unfold diff
  rw [word_eq, Array.getElem?_mapIdx, word_eq s]
  cases s.words[i]? with
  | none => simp
  | some w => rfl

theorem contains_diff {s t : PackageSet} {x : PackageId} :
    (s.diff t).contains x = true ↔ s.contains x = true ∧ t.contains x = false := by
  rw [← Bool.not_eq_true, contains_iff, contains_iff, contains_iff, bit_eq, bit_eq, bit_eq,
    word_diff, UInt64.toNat_and, Nat.testBit_and, testBit_not _ (Nat.mod_lt _ (by decide)),
    Bool.and_eq_true, Bool.not_eq_true', not_and, Bool.not_eq_true]
  refine ⟨?_, ?_⟩
  · intro h
    exact ⟨⟨h.1, h.2.1⟩, fun _ => h.2.2⟩
  · intro h
    exact ⟨h.1.1, h.1.2, h.2 h.1.1⟩

/-! ## The next member -/

theorem testBit_of_le (w : UInt64) {k : Nat} (hk : 64 ≤ k) : w.toNat.testBit k = false :=
  Nat.testBit_lt_two_pow (Nat.lt_of_lt_of_le (UInt64.toNat_lt w)
    (Nat.pow_le_pow_right (by decide) hk))

/-- A word that is not zero has a lowest bit. -/
theorem trailingZeros_spec {w : UInt64} (h : w ≠ 0) :
    trailingZeros w < 64 ∧ w.toNat.testBit (trailingZeros w) = true ∧
      ∀ k, w.toNat.testBit k = true → trailingZeros w ≤ k := by
  unfold trailingZeros
  cases hfind : (List.range 64).find? w.toNat.testBit with
  | none =>
    refine absurd (UInt64.toNat_inj.mp (Nat.eq_of_testBit_eq fun k => ?_)) h
    rw [UInt64.toNat_zero, Nat.zero_testBit]
    rcases Nat.lt_or_ge k 64 with hk | hk
    · exact Bool.eq_false_iff.mpr (List.find?_eq_none.mp hfind k (List.mem_range.mpr hk))
    · exact testBit_of_le w hk
  | some t =>
    obtain ⟨hbit, ht, hbelow⟩ := List.find?_range_eq_some.mp hfind
    refine ⟨List.mem_range.mp ht, hbit, fun k hk => Nat.not_lt.mp fun hlt => ?_⟩
    have hclear := hbelow k hlt
    rw [hk] at hclear
    exact Bool.noConfusion hclear

/-- What a search of words finds is a bit of one of them, -/
theorem exists_word_of_lowestBit? {m : Nat} : ∀ {ws : List UInt64} {i : Nat},
    lowestBit? i ws = some m →
      ∃ j w, ws[j]? = some w ∧ w.toNat.testBit (m % 64) = true ∧ m / 64 = i + j
  | [], _, h => absurd h (by simp [lowestBit?])
  | w :: ws, i, h => by
      unfold lowestBit? at h
      split at h
      · obtain ⟨j, w', hw', hbit, hword⟩ := exists_word_of_lowestBit? h
        exact ⟨j + 1, w', hw', hbit, by omega⟩
      · rename_i hw
        obtain ⟨hlt, hbit, -⟩ := trailingZeros_spec hw
        obtain rfl := Option.some.inj h
        have hmod : (64 * i + trailingZeros w) % 64 = trailingZeros w := by omega
        exact ⟨0, w, rfl, by rwa [hmod], by omega⟩

/-- and none of them has a lower one. -/
theorem exists_lowestBit?_le {k : Nat} {w : UInt64} (hbit : w.toNat.testBit k = true)
    {ws : List UInt64} {i j : Nat} (h : ws[j]? = some w) :
    ∃ m ≤ 64 * (i + j) + k, lowestBit? i ws = some m := by
  induction ws generalizing i j with
  | nil => exact absurd h (by simp)
  | cons w' ws ih =>
    unfold lowestBit?
    split
    · rename_i hzero
      cases j with
      | zero =>
        -- an empty word has no bit
        obtain rfl := Option.some.inj h
        rw [hzero] at hbit
        exact absurd hbit (by simp)
      | succ j =>
        obtain ⟨m, hm, hfound⟩ := ih (i := i + 1) h
        exact ⟨m, by omega, hfound⟩
    · rename_i hne
      obtain ⟨hlt, -, hleast⟩ := trailingZeros_spec hne
      refine ⟨_, ?_, rfl⟩
      cases j with
      | zero =>
        obtain rfl := Option.some.inj h
        have := hleast k hbit
        omega
      | succ j => omega

/-- The mask of a word leaves the bits from a place on. -/
theorem testBit_maskFrom (w : UInt64) {r k : Nat} (hr : r < 64) (hk : k < 64) :
    (w &&& (~~~0 <<< UInt64.ofNat r)).toNat.testBit k = (w.toNat.testBit k && decide (r ≤ k)) := by
  have hones : (~~~(0 : UInt64)).toNat = 2 ^ 64 - 1 := by decide
  rw [UInt64.toNat_and, Nat.testBit_and, UInt64.toNat_shiftLeft,
    UInt64.toNat_ofNat_of_lt' (Nat.lt_trans hr (by decide)), Nat.mod_eq_of_lt hr,
    Nat.testBit_mod_two_pow, Nat.testBit_shiftLeft, hones, Nat.testBit_two_pow_sub_one,
    decide_eq_true hk, decide_eq_true (show k - r < 64 by omega), Bool.true_and, Bool.and_true]

theorem bit_iff_getElem? {s : PackageSet} {n : Nat} : s.bit n = true ↔
    ∃ w, s.words.toList[n / 64]? = some w ∧ w.toNat.testBit (n % 64) = true := by
  rw [bit_eq, word_eq, Array.getElem?_toList]
  cases s.words[n / 64]? with
  | none => simp
  | some w => simp

/-- What the search finds is a set bit, and not before where it begins. -/
theorem bit_of_nextBit? {s : PackageSet} {n m : Nat} (h : s.nextBit? n = some m) :
    n ≤ m ∧ s.bit m = true := by
  unfold nextBit? at h
  split at h
  · exact absurd h (by simp)
  · rename_i w ws hdrop
    obtain ⟨j, w', hw', hbit, hword⟩ := exists_word_of_lowestBit? h
    have hget : (s.words.toList.drop (n / 64))[j]? = s.words.toList[m / 64]? := by
      rw [List.getElem?_drop, hword]
    cases j with
    | zero =>
      -- in the word where the search begins, masked bits are none
      obtain rfl := Option.some.inj hw'
      rw [testBit_maskFrom w (Nat.mod_lt _ (by decide)) (Nat.mod_lt _ (by decide)),
        Bool.and_eq_true, decide_eq_true_iff] at hbit
      rw [hdrop] at hget
      exact ⟨by omega, bit_iff_getElem?.mpr ⟨w, hget.symm, hbit.1⟩⟩
    | succ j =>
      rw [hdrop] at hget
      exact ⟨by omega, bit_iff_getElem?.mpr ⟨w', hget.symm.trans hw', hbit⟩⟩

/-- The search passes over no set bit. -/
theorem exists_nextBit?_le {s : PackageSet} {n k : Nat} (hk : n ≤ k) (hb : s.bit k = true) :
    ∃ m ≤ k, s.nextBit? n = some m := by
  obtain ⟨w, hw, hbit⟩ := bit_iff_getElem?.mp hb
  obtain ⟨j, hj⟩ : ∃ j, k / 64 = n / 64 + j := ⟨k / 64 - n / 64, by omega⟩
  have hget : (s.words.toList.drop (n / 64))[j]? = some w := by
    rw [List.getElem?_drop, ← hj, hw]
  have hplace : 64 * (n / 64 + j) + k % 64 = k := by omega
  unfold nextBit?
  split
  · rename_i hdrop
    rw [hdrop] at hget
    exact absurd hget (by simp)
  · rename_i w' ws hdrop
    rw [hdrop] at hget
    rw [← hplace]
    cases j with
    | zero =>
      obtain rfl := Option.some.inj hget
      refine exists_lowestBit?_le (j := 0) ?_ rfl
      rw [testBit_maskFrom w' (Nat.mod_lt _ (by decide)) (Nat.mod_lt _ (by decide)), hbit,
        Bool.true_and, decide_eq_true_iff]
      omega
    | succ j => exact exists_lowestBit?_le (j := j + 1) hbit hget

theorem next?_eq (s : PackageSet) (a : PackageId) :
    s.next? a = (s.nextBit? (a.toNat + 1)).map Nat.cast := by
  unfold next?
  cases s.nextBit? (a.toNat + 1) <;> rfl

theorem toNat_lt_toNat_iff {a b : Int} : (0 < b ∧ a < b) ↔ a.toNat + 1 ≤ b.toNat := by omega

theorem cast_le_of_le_toNat {n : Nat} {b : Int} (hb : 0 < b) (h : n ≤ b.toNat) : (n : Int) ≤ b := by
  omega

/-- A member above a number is a set bit where the search after that number looks. -/
theorem contains_and_lt_iff {s : PackageSet} {a id : PackageId} :
    s.contains id = true ∧ a < id ↔ a.toNat + 1 ≤ id.toNat ∧ s.bit id.toNat = true := by
  rw [contains_iff, ← toNat_lt_toNat_iff, and_right_comm]

/-- The next member after a number is a greater one, -/
theorem contains_of_next? {s : PackageSet} {a b : PackageId} (h : s.next? a = some b) :
    s.contains b = true ∧ a < b := by
  rw [next?_eq, Option.map_eq_some_iff] at h
  obtain ⟨n, hn, rfl⟩ := h
  exact contains_and_lt_iff.mpr (bit_of_nextBit? hn)

/-- and there is one that is not above any other. -/
theorem exists_next?_le {s : PackageSet} {a id : PackageId} (hid : s.contains id = true)
    (hlt : a < id) : ∃ b ≤ id, s.next? a = some b := by
  obtain ⟨hle, hbit⟩ := contains_and_lt_iff.mp ⟨hid, hlt⟩
  obtain ⟨m, hm, hfound⟩ := exists_nextBit?_le hle hbit
  refine ⟨m, cast_le_of_le_toNat (pos_of_contains hid) hm, ?_⟩
  rw [next?_eq, hfound]
  rfl

/-! ## The list of members -/

theorem lt_of_contains {s : PackageSet} {id : PackageId} (h : s.contains id = true) :
    id.toNat < 64 * s.words.size := by
  obtain ⟨w, hw, -⟩ := bit_iff_getElem?.mp (contains_iff.mp h).2
  obtain ⟨hlt, -⟩ := List.getElem?_eq_some_iff.mp hw
  rw [Array.length_toList] at hlt
  omega

/-- Going through the members after a number meets all of them, given steps enough. -/
theorem mem_membersAfter {s : PackageSet} {id : PackageId} : ∀ {left : Nat} {a : PackageId},
    64 * s.words.size ≤ left + a.toNat →
      (id ∈ s.membersAfter left a ↔ s.contains id = true ∧ a < id)
  | 0, a, hleft => by
      refine ⟨fun h => absurd h List.not_mem_nil, fun h => ?_⟩
      have hlt := lt_of_contains h.1
      have hle := (contains_and_lt_iff.mp h).1
      omega
  | left + 1, a, hleft => by
      unfold membersAfter
      cases hnext : s.next? a with
      | none =>
        refine ⟨fun h => absurd h List.not_mem_nil, fun h => ?_⟩
        obtain ⟨b, -, hb⟩ := exists_next?_le h.1 h.2
        rw [hnext] at hb
        exact absurd hb (by simp)
      | some b =>
        obtain ⟨hb, hab⟩ := contains_of_next? hnext
        have hless := toNat_lt_toNat_iff.mp ⟨pos_of_contains hb, hab⟩
        rw [List.mem_cons, mem_membersAfter (by omega)]
        constructor
        · rintro (rfl | ⟨hid, hlt⟩)
          · exact ⟨hb, hab⟩
          · exact ⟨hid, Int.lt_trans hab hlt⟩
        · intro h
          obtain ⟨b', hle, hb'⟩ := exists_next?_le h.1 h.2
          obtain rfl := Option.some.inj (hnext.symm.trans hb')
          rcases Int.lt_or_eq_of_le hle with hlt | rfl
          · exact .inr ⟨h.1, hlt⟩
          · exact .inl rfl

/-- The list of members names exactly the members. -/
theorem mem_toList {s : PackageSet} {id : PackageId} : id ∈ s.toList ↔ s.contains id = true := by
  unfold toList
  rw [mem_membersAfter (Nat.le_add_right _ _)]
  exact and_iff_left_of_imp pos_of_contains

/-! ## The order of the list -/

theorem lt_of_mem_membersAfter {s : PackageSet} {x : PackageId} : ∀ {left : Nat} {a : PackageId},
    x ∈ s.membersAfter left a → a < x
  | 0, _, h => absurd h List.not_mem_nil
  | left + 1, a, h => by
      unfold membersAfter at h
      cases hnext : s.next? a with
      | none =>
        rw [hnext] at h
        exact absurd h List.not_mem_nil
      | some b =>
        rw [hnext] at h
        have hab := (contains_of_next? hnext).2
        rcases List.mem_cons.mp h with rfl | h
        · exact hab
        · exact Int.lt_trans hab (lt_of_mem_membersAfter h)

theorem pairwise_membersAfter (s : PackageSet) : ∀ (left : Nat) (a : PackageId),
    (s.membersAfter left a).Pairwise (· < ·)
  | 0, _ => .nil
  | left + 1, a => by
      unfold membersAfter
      cases s.next? a with
      | none => exact .nil
      | some b =>
        exact List.pairwise_cons.mpr
          ⟨fun _ h => lt_of_mem_membersAfter h, pairwise_membersAfter s left b⟩

/-- The list of members is ascending. -/
theorem pairwise_toList (s : PackageSet) : s.toList.Pairwise (· < ·) := pairwise_membersAfter ..

theorem nodup_toList (s : PackageSet) : s.toList.Nodup :=
  s.pairwise_toList.imp fun {_ _} h => Int.ne_of_lt h

/-- An ascending list of exactly the members is the list of members. -/
theorem toList_eq {s : PackageSet} {ids : List PackageId} (hids : ids.Pairwise (· < ·))
    (h : ∀ id, s.contains id = true ↔ id ∈ ids) : s.toList = ids := by
  refine List.Perm.eq_of_pairwise (fun a b _ _ hab hba => absurd hba (Int.lt_asymm hab))
    s.pairwise_toList hids ?_
  have hnodup : ids.Nodup := hids.imp fun {_ _} h => Int.ne_of_lt h
  refine (List.perm_ext_iff_of_nodup s.nodup_toList hnodup).mpr fun id => ?_
  rw [mem_toList, h]

/-! ## Empty sets -/

theorem bit_zero_insert {s : PackageSet} (h : s.bit 0 = false) (id : PackageId) :
    (s.insert id).bit 0 = false := by
  by_cases hid : 0 < id
  · refine Bool.eq_false_iff.mpr fun hbit => ?_
    rcases (bit_insert hid 0).mp hbit with hold | hzero
    · rw [h] at hold
      exact absurd hold (by simp)
    · exact absurd hzero.symm (Nat.ne_of_gt (toNat_pos hid))
  · unfold insert
    rwa [if_neg hid]

theorem bit_zero_insertMany (ids : List PackageId) {s : PackageSet} (h : s.bit 0 = false) :
    (s.insertMany ids).bit 0 = false := by
  induction ids generalizing s with
  | nil => exact h
  | cons id ids ih =>
    rw [insertMany, List.foldl_cons]
    exact ih (bit_zero_insert h id)

/-- No set that was made of packages has the bit of number 0, which names none. -/
theorem bit_zero_ofList (ids : List PackageId) : (ofList ids).bit 0 = false :=
  bit_zero_insertMany ids rfl

/-- Words of the same bits are the same. -/
theorem word_ext {s t : PackageSet} {i : Nat}
    (h : ∀ k < 64, s.bit (64 * i + k) = t.bit (64 * i + k)) : s.word i = t.word i := by
  refine UInt64.toNat_inj.mp (Nat.eq_of_testBit_eq fun k => ?_)
  by_cases hk : k < 64
  · have hbit := h k hk
    have hdiv : (64 * i + k) / 64 = i := by omega
    have hmod : (64 * i + k) % 64 = k := by omega
    rwa [bit_eq, bit_eq, hdiv, hmod] at hbit
  · rw [testBit_of_le _ (Nat.not_lt.mp hk), testBit_of_le _ (Nat.not_lt.mp hk)]

theorem contains_of_isEmpty {s : PackageSet} (h : s.isEmpty = true) (id : PackageId) :
    s.contains id = false := by
  unfold isEmpty at h
  rw [Array.all_eq_true] at h
  refine Bool.eq_false_iff.mpr fun hid => ?_
  have hbit := (contains_iff.mp hid).2
  have hword : s.word (id.toNat / 64) = 0 := by
    rw [word_eq]
    by_cases hi : id.toNat / 64 < s.words.size
    · rw [Array.getElem?_eq_getElem hi]
      exact beq_iff_eq.mp (h _ hi)
    · rw [Array.getElem?_eq_none (Nat.not_lt.mp hi)]
      rfl
  rw [bit_eq, hword] at hbit
  exact absurd hbit (by simp)

/-- **An empty set has no members**, and only an empty set has none. -/
theorem isEmpty_iff {s : PackageSet} (h0 : s.bit 0 = false) :
    s.isEmpty = true ↔ ∀ id, s.contains id = false := by
  refine ⟨contains_of_isEmpty, fun h => ?_⟩
  unfold isEmpty
  refine Array.all_eq_true.mpr fun i hi => ?_
  -- every bit of the word is unset, as in no package at all
  have hword : s.word i = empty.word i := by
    refine word_ext fun k _ => ?_
    have hnone : empty.bit (64 * i + k) = false := by
      rw [bit_eq]
      exact Nat.zero_testBit _
    rw [hnone]
    rcases Nat.eq_zero_or_pos (64 * i + k) with hzero | hpos
    · rw [hzero]
      exact h0
    · refine Bool.eq_false_iff.mpr fun hbit => ?_
      have hin : s.contains ((64 * i + k : Nat) : Int) = true :=
        contains_iff.mpr ⟨Int.ofNat_lt.mpr hpos, hbit⟩
      rw [h] at hin
      exact absurd hin (by simp)
  rw [word_eq, Array.getElem?_eq_getElem hi] at hword
  exact beq_iff_eq.mpr hword

end PackageSet

end DepSolver
