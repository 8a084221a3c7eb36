import Mathlib.Data.Finset.Sort
import Mathlib.Data.Int.ConditionallyCompleteOrder
import Mathlib.Order.Bounds.Basic
import Mathlib.Order.ConditionallyCompleteLattice.Basic
import DepSolver.Proofs.PackageSet.Bitmap

/-!
# Bitmaps are finite sets

A `PackageSet` is made by operations on words, and the words of two sets need not be as many. This
file says that nothing of that shows: a set that was built from an empty one, by whatever
operations, is the finite set that the same operations describe. It has the same members, is equal
to another exactly if that has the same members, is listed in ascending order, counts its members,
and finds the next one after any number.

Operations on members say nothing of bit 0, which stands for no package. Equality, size and the
list of members do look at it, and are right because no operation ever sets it.
-/

namespace DepSolver

namespace PackageSet

/-! ## Bits of what the operations give -/

theorem bit_withCapacity (max n : Nat) : (withCapacity max).bit n = false := by
  have hword : (withCapacity max).word (n / 64) = 0 := by
    unfold withCapacity
    rw [word_eq, Array.getElem?_replicate]
    split <;> rfl
  rw [bit_eq, hword]
  exact Nat.zero_testBit _

theorem word_erase {s : PackageSet} {id : PackageId} (h : 0 < id) (i : Nat) :
    (s.erase id).word i =
      if id.toNat / 64 = i then s.word i &&& ~~~mask id.toNat else s.word i := by
  unfold erase
  rw [if_pos h, word_eq, word_eq, Array.getElem?_modify]
  split
  · cases s.words[i]? with
    | none => simp
    | some w => rfl
  · rfl

/-- Taking a package out unsets its bit and no other. -/
theorem bit_erase {s : PackageSet} {id : PackageId} (h : 0 < id) (n : Nat) :
    (s.erase id).bit n = true ↔ s.bit n = true ∧ n ≠ id.toNat := by
  rw [bit_eq, bit_eq, word_erase h]
  split
  · rename_i hi
    rw [UInt64.toNat_and, Nat.testBit_and, testBit_not _ (Nat.mod_lt _ (by decide)), testBit_mask,
      Bool.and_eq_true, Bool.not_eq_true', decide_eq_false_iff_not]
    refine and_congr_right fun _ => not_congr ⟨fun hm => ?_, fun he => by rw [he]⟩
    -- the same word and the same place in it
    rw [← Nat.div_add_mod n 64, ← hi, ← hm, Nat.div_add_mod]
  · rename_i hi
    refine (and_iff_left fun he => ?_).symm
    rw [he] at hi
    exact hi rfl

theorem contains_erase {s : PackageSet} {id x : PackageId} :
    (s.erase id).contains x = true ↔ s.contains x = true ∧ x ≠ id := by
  by_cases h : 0 < id
  · rw [contains_iff, contains_iff, bit_erase h, and_assoc]
    refine and_congr_right fun hx => and_congr_right fun _ => not_congr ⟨?_, ?_⟩
    · intro hn
      exact eq_of_toNat_eq hx h hn
    · intro he
      rw [he]
  · unfold erase
    rw [if_neg h]
    refine (and_iff_left_of_imp fun hx he => ?_).symm
    rw [he] at hx
    exact h (pos_of_contains hx)

theorem bit_union (s t : PackageSet) (n : Nat) : (s.union t).bit n = (s.bit n || t.bit n) := by
  rw [bit_eq, bit_eq, bit_eq, word_union, UInt64.toNat_or, Nat.testBit_or]

theorem bit_inter (s t : PackageSet) (n : Nat) : (s.inter t).bit n = (s.bit n && t.bit n) := by
  rw [bit_eq, bit_eq, bit_eq, word_inter, UInt64.toNat_and, Nat.testBit_and]

theorem bit_diff (s t : PackageSet) (n : Nat) : (s.diff t).bit n = (s.bit n && !t.bit n) := by
  rw [bit_eq, bit_eq, bit_eq, word_diff, UInt64.toNat_and, Nat.testBit_and,
    testBit_not _ (Nat.mod_lt _ (by decide))]

theorem bit_zero_erase {s : PackageSet} (h : s.bit 0 = false) (id : PackageId) :
    (s.erase id).bit 0 = false := by
  by_cases hid : 0 < id
  · refine Bool.eq_false_iff.mpr fun hbit => ?_
    rw [((bit_erase hid 0).mp hbit).1] at h
    exact absurd h (by decide)
  · unfold erase
    rwa [if_neg hid]

/-! ## Equality -/

/-- Sets that have the same members have the same words. -/
theorem word_congr {s t : PackageSet} (hs : s.bit 0 = false) (ht : t.bit 0 = false)
    (h : ∀ id, s.contains id = t.contains id) (i : Nat) : s.word i = t.word i := by
  refine word_ext fun k hk => ?_
  rcases Nat.eq_zero_or_pos (64 * i + k) with hzero | hpos
  · rw [hzero, hs, ht]
  · have hid : (0 : Int) < (64 * i + k : Nat) := Int.natCast_pos.mpr hpos
    have hsame := h (64 * i + k : Nat)
    unfold contains at hsame
    rwa [decide_eq_true hid, Bool.true_and, Bool.true_and, Int.toNat_natCast] at hsame

/-- **Equal sets are those of the same members**, whatever the lengths of their bitmaps. -/
theorem beq_iff {s t : PackageSet} (hs : s.bit 0 = false) (ht : t.bit 0 = false) :
    (s == t) = true ↔ ∀ id, s.contains id = t.contains id := by
  have hbeq : (s == t) = true ↔ ∀ i, s.word i = t.word i := by
    show s.beq t = true ↔ _
    unfold beq
    rw [List.all_eq_true]
    refine ⟨fun h i => ?_, fun h i _ => beq_iff_eq.mpr (h i)⟩
    by_cases hi : i < max s.words.size t.words.size
    · exact beq_iff_eq.mp (h i (List.mem_range.mpr hi))
    · -- past both bitmaps
      rw [word_eq, word_eq, Array.getElem?_eq_none (by omega), Array.getElem?_eq_none (by omega)]
  rw [hbeq]
  refine ⟨fun h id => ?_, word_congr hs ht⟩
  unfold contains
  rw [bit_eq, bit_eq, h]

/-! ## Size -/

/-- The bits set in a word, ascending, counted from `base`. -/
def bitsFrom (base : Nat) (w : UInt64) : List Nat :=
  ((List.range 64).filter fun k => w &&& mask k != 0).map (base + ·)

/-- The bits set in some words, the first of which is word `i` of a bitmap. -/
def bitsOf (i : Nat) : List UInt64 → List Nat
  | [] => []
  | w :: ws => bitsFrom (64 * i) w ++ bitsOf (i + 1) ws

theorem mem_bitsFrom {base n : Nat} {w : UInt64} :
    n ∈ bitsFrom base w ↔ ∃ k < 64, w.toNat.testBit k = true ∧ n = base + k := by
  unfold bitsFrom
  rw [List.mem_map]
  refine exists_congr fun k => ?_
  rw [List.mem_filter, List.mem_range, and_assoc]
  refine and_congr_right fun hk => ?_
  rw [and_mask_bne_zero, Nat.mod_eq_of_lt hk, eq_comm (a := n)]

theorem mem_bitsOf {n : Nat} : ∀ {ws : List UInt64} {i : Nat}, n ∈ bitsOf i ws ↔
    ∃ j w, ws[j]? = some w ∧ w.toNat.testBit (n % 64) = true ∧ n / 64 = i + j
  | [], i => by simp [bitsOf]
  | w :: ws, i => by
      rw [bitsOf, List.mem_append, mem_bitsFrom, mem_bitsOf]
      constructor
      · rintro (⟨k, hk, hbit, rfl⟩ | ⟨j, w', hw', hbit, hword⟩)
        · have hmod : (64 * i + k) % 64 = k := by omega
          exact ⟨0, w, rfl, by rwa [hmod], by omega⟩
        · exact ⟨j + 1, w', hw', hbit, by omega⟩
      · rintro ⟨j, w', hw', hbit, hword⟩
        cases j with
        | zero =>
          obtain rfl := Option.some.inj hw'
          exact .inl ⟨n % 64, Nat.mod_lt _ (by decide), hbit, by omega⟩
        | succ j => exact .inr ⟨j, w', hw', hbit, by omega⟩

theorem pairwise_bitsOf : ∀ (ws : List UInt64) (i : Nat), (bitsOf i ws).Pairwise (· < ·)
  | [], _ => .nil
  | w :: ws, i => by
      refine List.pairwise_append.mpr ⟨?_, pairwise_bitsOf ws (i + 1), fun x hx y hy => ?_⟩
      · refine List.pairwise_map.mpr ((List.pairwise_lt_range.filter _).imp fun h => ?_)
        exact Nat.add_lt_add_left h _
      · -- a bit never leaves its word
        obtain ⟨k, hk, -, rfl⟩ := mem_bitsFrom.mp hx
        obtain ⟨j, w', -, -, hword⟩ := mem_bitsOf.mp hy
        omega

/-- The list of members is that of the bits. -/
theorem toList_eq_bitsOf {s : PackageSet} (h0 : s.bit 0 = false) :
    s.toList = (bitsOf 0 s.words.toList).map Int.ofNat := by
  have hbits : ∀ n, n ∈ bitsOf 0 s.words.toList ↔ s.bit n = true := by
    intro n
    rw [mem_bitsOf, bit_iff_getElem?]
    constructor
    · rintro ⟨j, w, hw, hbit, hword⟩
      rw [Nat.zero_add] at hword
      exact ⟨w, hword ▸ hw, hbit⟩
    · rintro ⟨w, hw, hbit⟩
      exact ⟨n / 64, w, hw, hbit, (Nat.zero_add _).symm⟩
  refine toList_eq ?_ fun id => ?_
  · exact List.pairwise_map.mpr ((pairwise_bitsOf _ 0).imp fun h => Int.ofNat_lt.mpr h)
  · rw [contains_iff, List.mem_map]
    constructor
    · rintro ⟨hpos, hbit⟩
      exact ⟨id.toNat, (hbits _).mpr hbit, Int.toNat_of_nonneg (Int.le_of_lt hpos)⟩
    · rintro ⟨n, hn, rfl⟩
      have hbit := (hbits n).mp hn
      refine ⟨Int.natCast_pos.mpr (Nat.pos_of_ne_zero fun hzero => ?_), hbit⟩
      rw [hzero, h0] at hbit
      exact Bool.noConfusion hbit

theorem length_bitsFrom (base : Nat) (w : UInt64) : (bitsFrom base w).length = bitCount w := by
  unfold bitsFrom bitCount
  rw [List.length_map, List.countP_eq_length_filter]

/-- A set counts its members. -/
theorem size_eq_length {s : PackageSet} (h0 : s.bit 0 = false) : s.size = s.toList.length := by
  have hsum : ∀ (ws : List UInt64) (i n : Nat),
      ws.foldl (fun n w => n + bitCount w) n = n + (bitsOf i ws).length := by
    intro ws
    induction ws with
    | nil => intro i n; rfl
    | cons w ws ih =>
      intro i n
      rw [List.foldl_cons, ih (i + 1), bitsOf, List.length_append, length_bitsFrom, Nat.add_assoc]
  rw [toList_eq_bitsOf h0, List.length_map]
  unfold size
  rw [hsum _ 0, Nat.zero_add]

/-! ## The next member -/

/-- **The next member after a number is the least of the greater ones.** -/
theorem next?_eq_some_iff {s : PackageSet} {a b : PackageId} :
    s.next? a = some b ↔ IsLeast {id | s.contains id = true ∧ a < id} b := by
  constructor
  · intro h
    refine ⟨contains_of_next? h, fun id hid => ?_⟩
    obtain ⟨b', hle, hb'⟩ := exists_next?_le hid.1 hid.2
    rwa [Option.some.inj (h.symm.trans hb')]
  · intro h
    obtain ⟨hmem, hleast⟩ := h
    obtain ⟨b', hle, hb'⟩ := exists_next?_le hmem.1 hmem.2
    rw [hb', Int.le_antisymm hle (hleast (contains_of_next? hb'))]

theorem next?_eq_none_iff {s : PackageSet} {a : PackageId} :
    s.next? a = none ↔ ∀ id, s.contains id = true → id ≤ a := by
  constructor
  · intro h id hid
    refine Int.not_lt.mp fun hlt => ?_
    obtain ⟨b, -, hb⟩ := exists_next?_le hid hlt
    rw [h] at hb
    exact absurd hb (by simp)
  · intro h
    refine Option.eq_none_iff_forall_ne_some.mpr fun b hb => ?_
    obtain ⟨hin, hlt⟩ := contains_of_next? hb
    exact absurd hlt (Int.not_lt.mpr (h b hin))

theorem lt_of_getElem?_toList {s : PackageSet} {i j : Nat} {x y : PackageId} (hij : i < j)
    (hx : s.toList[i]? = some x) (hy : s.toList[j]? = some y) : x < y := by
  obtain ⟨hi, rfl⟩ := List.getElem?_eq_some_iff.mp hx
  obtain ⟨hj, rfl⟩ := List.getElem?_eq_some_iff.mp hy
  exact List.pairwise_iff_getElem.mp s.pairwise_toList i j hi hj hij

/-- The next member after a number is the first of the list that is greater. -/
theorem next?_eq_getElem?_toList {s : PackageSet} {a : PackageId} {i : Nat}
    (hbefore : ∀ {j x}, j < i → s.toList[j]? = some x → x ≤ a)
    (hbehind : ∀ {x}, s.toList[i]? = some x → a < x) : s.next? a = s.toList[i]? := by
  cases hy : s.toList[i]? with
  | some y =>
    refine next?_eq_some_iff.mpr ⟨⟨mem_toList.mp (List.mem_of_getElem? hy), hbehind hy⟩, ?_⟩
    intro id hid
    obtain ⟨j, hj⟩ := List.mem_iff_getElem?.mp (mem_toList.mpr hid.1)
    rcases Nat.lt_trichotomy j i with hlt | rfl | hgt
    · exact absurd hid.2 (Int.not_lt.mpr (hbefore hlt hj))
    · rw [hy] at hj
      exact Int.le_of_eq (Option.some.inj hj)
    · exact Int.le_of_lt (lt_of_getElem?_toList hgt hy hj)
  | none =>
    refine next?_eq_none_iff.mpr fun id hid => ?_
    obtain ⟨j, hj⟩ := List.mem_iff_getElem?.mp (mem_toList.mpr hid)
    obtain ⟨hlt, -⟩ := List.getElem?_eq_some_iff.mp hj
    have hlen := List.getElem?_eq_none_iff.mp hy
    exact hbefore (by omega) hj

/-- **To go on to the next member is to go through the list of members.** -/
theorem next?_of_getElem?_toList {s : PackageSet} {i : Nat} {x : PackageId}
    (hx : s.toList[i]? = some x) : s.next? x = s.toList[i + 1]? := by
  refine next?_eq_getElem?_toList ?_ (lt_of_getElem?_toList (Nat.lt_succ_self i) hx)
  intro j y hj hy
  rcases Nat.lt_or_eq_of_le (Nat.le_of_lt_succ hj) with hji | rfl
  · exact Int.le_of_lt (lt_of_getElem?_toList hji hy hx)
  · rw [hx] at hy
    exact Int.le_of_eq (Option.some.inj hy).symm

theorem next?_zero (s : PackageSet) : s.next? 0 = s.toList[0]? := by
  refine next?_eq_getElem?_toList (fun hj => absurd hj (Nat.not_lt_zero _)) ?_
  intro x hx
  exact pos_of_contains (mem_toList.mp (List.mem_of_getElem? hx))

/-! ## Sets that are built -/

/-- How a set of packages is built. -/
inductive SetTerm where
  | empty
  /-- An empty set with room for packages up to a number. -/
  | withCapacity (max : Nat)
  | insert (t : SetTerm) (id : PackageId)
  | erase (t : SetTerm) (id : PackageId)
  | insertMany (t : SetTerm) (ids : List PackageId)
  | union (t u : SetTerm)
  | inter (t u : SetTerm)
  | diff (t u : SetTerm)

namespace SetTerm

/-- The bitmap that is built. -/
def eval : SetTerm → PackageSet
  | empty => .empty
  | withCapacity max => .withCapacity max
  | insert t id => t.eval.insert id
  | erase t id => t.eval.erase id
  | insertMany t ids => t.eval.insertMany ids
  | union t u => t.eval.union u.eval
  | inter t u => t.eval.inter u.eval
  | diff t u => t.eval.diff u.eval

/-- The finite set that is described. Numbers that name no package are passed over. -/
def members : SetTerm → Finset PackageId
  | empty | withCapacity _ => ∅
  | insert t id => if 0 < id then Insert.insert id t.members else t.members
  | erase t id => t.members.erase id
  | insertMany t ids => t.members ∪ ids.toFinset.filter (0 < ·)
  | union t u => t.members ∪ u.members
  | inter t u => t.members ∩ u.members
  | diff t u => t.members \ u.members

theorem bit_zero_eval (t : SetTerm) : t.eval.bit 0 = false := by
  induction t with
  | empty => rfl
  | withCapacity max => exact bit_withCapacity max 0
  | insert t id ih => exact bit_zero_insert ih id
  | erase t id ih => exact bit_zero_erase ih id
  | insertMany t ids ih => exact bit_zero_insertMany ids ih
  | union t u iht ihu => rw [eval, bit_union, iht, ihu, Bool.or_false]
  | inter t u iht ihu => rw [eval, bit_inter, iht, Bool.false_and]
  | diff t u iht ihu => rw [eval, bit_diff, iht, Bool.false_and]

theorem contains_eval (t : SetTerm) (id : PackageId) :
    t.eval.contains id = true ↔ id ∈ t.members := by
  induction t with
  | empty => rw [eval, contains_empty, members]; simp
  | withCapacity max =>
    rw [eval, contains_iff, bit_withCapacity, members]
    simp
  | insert t x ih =>
    rw [eval, contains_insert, ih, members]
    by_cases hx : 0 < x
    · rw [if_pos hx, Finset.mem_insert, or_comm, and_iff_right hx]
    · rw [if_neg hx]
      exact or_iff_left fun h => hx h.1
  | erase t x ih => rw [eval, contains_erase, ih, members, Finset.mem_erase, and_comm]
  | insertMany t ids ih =>
    rw [eval, contains_insertMany, ih, members, Finset.mem_union, Finset.mem_filter,
      List.mem_toFinset, and_comm]
  | union t u iht ihu => rw [eval, contains_union, iht, ihu, members, Finset.mem_union]
  | inter t u iht ihu => rw [eval, contains_inter, iht, ihu, members, Finset.mem_inter]
  | diff t u iht ihu =>
    rw [eval, contains_diff, ← Bool.not_eq_true, iht, ihu, members, Finset.mem_sdiff]

end SetTerm

/-- A bitmap shows a finite set: nothing that can be asked of it tells the two apart. -/
structure Shows (s : PackageSet) (members : Finset PackageId) : Prop where
  /-- It contains the members, which are packages, and no others. -/
  contains_iff : ∀ id, s.contains id = true ↔ id ∈ members
  pos : ∀ id ∈ members, 0 < id
  /-- It lists every member once, in ascending order. -/
  toList_eq : s.toList = members.sort
  /-- To begin at 0 and to go on to the next member goes through the list. -/
  first : s.next? 0 = s.toList[0]?
  step : ∀ {i x}, s.toList[i]? = some x → s.next? x = s.toList[i + 1]?
  size_eq : s.size = members.card
  /-- After any number comes the least of the greater members, if there is one. -/
  next?_eq_some_iff : ∀ {a b}, s.next? a = some b ↔ IsLeast {id | id ∈ members ∧ a < id} b
  next?_eq_none_iff : ∀ {a}, s.next? a = none ↔ ∀ id ∈ members, id ≤ a
  isEmpty_iff : s.isEmpty = true ↔ members = ∅

theorem SetTerm.shows (t : SetTerm) : t.eval.Shows t.members := by
  have hmem := t.contains_eval
  have h0 := t.bit_zero_eval
  have hlist : t.eval.toList = t.members.sort := by
    refine toList_eq ?_ fun id => by rw [hmem, Finset.mem_sort]
    exact (Finset.sortedLT_sort t.members).pairwise
  refine ⟨hmem, fun id hid => pos_of_contains ((hmem id).mpr hid), hlist, next?_zero _,
    next?_of_getElem?_toList, ?_, ?_, ?_, ?_⟩
  · rw [size_eq_length h0, hlist, Finset.length_sort]
  · intro a b
    simp only [PackageSet.next?_eq_some_iff, hmem]
  · intro a
    simp only [PackageSet.next?_eq_none_iff, hmem]
  · simp only [PackageSet.isEmpty_iff h0, ← Bool.not_eq_true, hmem, Finset.eq_empty_iff_forall_notMem]

/-- **Bitmaps are finite sets.** Whatever operations a set of packages was built by, on bitmaps of
whatever lengths, it shows the finite set that the same operations describe; and two sets are equal
exactly if they show the same one. -/
theorem SetTerm.shows_members (t u : SetTerm) :
    t.eval.Shows t.members ∧ ((t.eval == u.eval) = true ↔ t.members = u.members) := by
  refine ⟨t.shows, ?_⟩
  rw [beq_iff t.bit_zero_eval u.bit_zero_eval, Finset.ext_iff]
  refine forall_congr' fun id => ?_
  rw [Bool.eq_iff_iff, t.contains_eval, u.contains_eval]

end PackageSet

end DepSolver
