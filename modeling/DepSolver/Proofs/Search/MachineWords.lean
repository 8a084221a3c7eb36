import Mathlib.Algebra.Group.Int.Defs
import Mathlib.Algebra.Group.Nat.Defs
import DepSolver.Proofs.Search.Trail
import DepSolver.Search.DecisionTable

/-!
# Machine words: how far a decision table can be trusted

A `DecisionTable` says what `Decisions` say as long as the level of every new decision, plus one, is
a positive 32-bit word, and so is that of every level gone back to. `Fits` says so for one step and
`FitsAll` for a run. Within these bounds a step on the table is the step on the decisions it stands
for, and so is a run (`InRange.apply`, `InRange.run`); the trail of the run is then what both the map
and the queue of the table tell (`agree_after_run`). A search never leaves the bounds:
steps that fit lead a table wherever a search comes to (`Search.comesTo_of_passes`).

Beyond the bounds the words wrap around. Going back to such a level takes everything back, and a
package decided to be present at such a level is not present.
-/

namespace DepSolver

namespace DecisionTable

/-! ## Words -/

theorem toInt_stamp (level : UInt32) :
    (stamp level).toInt = ((level.toNat + 1 : Nat) : Int).bmod (2 ^ 32) := by
  have hbits : (stamp level).toBitVec = (level + 1).toBitVec := rfl
  rw [← Int32.toInt_toBitVec, hbits, BitVec.toInt_eq_toNat_bmod, UInt32.toNat_toBitVec,
    UInt32.toNat_add, UInt32.toNat_one, Int.natCast_emod]
  exact Int.emod_bmod ..

theorem toInt_stamp_of_lt {level : UInt32} (h : level.toNat + 1 < 2 ^ 31) :
    (stamp level).toInt = (level.toNat + 1 : Nat) := by
  rw [toInt_stamp, Int.bmod_eq_of_le] <;> omega

/-- From level 2147483647 on a word has no room for the level. -/
theorem toInt_stamp_nonpos {level : UInt32} (h : 2 ^ 31 ≤ level.toNat + 1) :
    (stamp level).toInt ≤ 0 := by
  have hlt := level.toNat_lt
  rw [toInt_stamp, Int.bmod_def]
  split <;> omega

theorem toInt_neg {w : Int32} (h : -2 ^ 31 < w.toInt) : (-w).toInt = -w.toInt := by
  have hhigh := w.toInt_lt
  rw [Int32.toInt_neg, Int.bmod_eq_of_le] <;> omega

theorem toInt_abs {w : Int32} (h : -2 ^ 31 < w.toInt) : w.abs.toInt = w.toInt.natAbs := by
  refine BitVec.toInt_abs_eq_natAbs_of_ne_intMin ?_
  intro he
  have hmin : w.toInt = -2 ^ 31 := congrArg BitVec.toInt he
  omega

theorem toInt_eq_zero_iff {w : Int32} : w.toInt = 0 ↔ w = 0 := by
  rw [← Int32.toInt_zero, Int32.toInt_inj]

theorem pos_iff_toInt_pos {w : Int32} : 0 < w ↔ 0 < w.toInt := by
  rw [Int32.lt_iff_toInt_lt, Int32.toInt_zero]

theorem toInt_signed (l : Literal) {w : Int32} {n : Nat} (h : w.toInt = n) :
    (signed l w).toInt = Decisions.signed l n := by
  unfold signed Decisions.signed
  split
  · exact h
  · rw [toInt_neg (by omega), h]

theorem lt_signed (l : Literal) {n : Nat} (h : n < 2 ^ 31) : -2 ^ 31 < Decisions.signed l n := by
  have habs := Decisions.natAbs_signed l n
  omega

/-! ## Tables of words -/

theorem getD_map_toInt (words : Array Int32) (p : Nat) :
    (words.map Int32.toInt).getD p 0 = (words.getD p 0).toInt := by
  rw [Array.getD_eq_getD_getElem?, Array.getD_eq_getD_getElem?, Array.getElem?_map]
  cases words[p]? <;> rfl

theorem map_setWordOf (words : Array Int32) (p : Nat) (w : Int32) :
    (setWordOf words p w).map Int32.toInt =
      Decisions.setLevelOf (words.map Int32.toInt) p w.toInt := by
  unfold setWordOf Decisions.setLevelOf Array.rightpad
  rw [Array.set!_eq_setIfInBounds, Array.set!_eq_setIfInBounds, Array.map_setIfInBounds,
    Array.map_append, Array.map_replicate, Array.size_map, Int32.toInt_zero]

theorem mem_setWordOf {words : Array Int32} {p : Nat} {w x : Int32}
    (h : x ∈ setWordOf words p w) : x ∈ words ∨ x = 0 ∨ x = w := by
  unfold setWordOf Array.rightpad at h
  rw [Array.set!_eq_setIfInBounds] at h
  rcases Array.mem_or_eq_of_mem_setIfInBounds h with h | h
  · rcases Array.mem_append.mp h with h | h
    · exact .inl h
    · exact .inr (.inl (Array.mem_replicate.mp h).2)
  · exact .inr (.inr h)

theorem signedLevel_toDecisions (t : DecisionTable) (l : Literal) :
    t.toDecisions.signedLevel l = (t.word l).toInt := getD_map_toInt t.words l.natAbs

theorem value?_toDecisions (t : DecisionTable) (l : Literal) :
    t.toDecisions.value? l = t.value? l := by
  have hsign : Decisions.isPositive (t.word l).toInt = Decidable.decide (0 < t.word l) :=
    decide_eq_decide.mpr pos_iff_toInt_pos.symm
  rw [Decisions.value?_eq, value?, signedLevel_toDecisions, hsign]
  simp only [toInt_eq_zero_iff]

/-! ## Bounds -/

/-- Every word has an opposite. -/
def InRange (t : DecisionTable) : Prop := ∀ w ∈ t.words, -2 ^ 31 < w.toInt

def apply (t : DecisionTable) : DecisionStep → DecisionTable
  | .decide l reason => (t.decide l reason).2
  | .override l reason => t.override l reason
  | .incrementLevel => t.incrementLevel
  | .setLevel level => t.setLevel level
  | .revert level => t.revert level
  | .reset => t.reset

/-- Whether a step needs no number that the table has no room for. -/
def Fits (t : DecisionTable) : DecisionStep → Prop
  | .decide l _ | .override l _ => t.word l = 0 → t.level.toNat + 1 < 2 ^ 31
  | .incrementLevel => t.level.toNat + 1 < 2 ^ 32
  | .revert level => level.toNat + 1 < 2 ^ 31
  | .setLevel _ | .reset => True

/-- Whether each step of a run fits where it is made. -/
def FitsAll (t : DecisionTable) : List DecisionStep → Prop
  | [] => True
  | s :: rest => t.Fits s ∧ (t.apply s).FitsAll rest

instance (t : DecisionTable) : ∀ s, Decidable (t.Fits s)
  | .decide _ _ | .override _ _ => inferInstanceAs (Decidable (_ → _))
  | .incrementLevel | .revert _ => inferInstanceAs (Decidable (_ < _))
  | .setLevel _ | .reset => inferInstanceAs (Decidable True)

instance decidableFitsAll (t : DecisionTable) : ∀ steps, Decidable (t.FitsAll steps)
  | [] => inferInstanceAs (Decidable True)
  | s :: rest =>
    have := decidableFitsAll (t.apply s) rest
    inferInstanceAs (Decidable (_ ∧ _))

theorem InRange.word {t : DecisionTable} (h : t.InRange) (l : Literal) :
    -2 ^ 31 < (t.word l).toInt := by
  unfold DecisionTable.word
  rw [Array.getD_eq_getD_getElem?]
  cases hw : t.words[l.natAbs]? with
  | none => decide
  | some w => exact h w (Array.mem_of_getElem? hw)

theorem InRange.setWordOf {t : DecisionTable} (h : t.InRange) (p : Nat) (l : Literal) {w : Int32}
    {n : Nat} (hw : w.toInt = n) {x : Int32}
    (hx : x ∈ DecisionTable.setWordOf t.words p (signed l w)) : -2 ^ 31 < x.toInt := by
  rcases mem_setWordOf hx with hx | rfl | rfl
  · exact h x hx
  · decide
  · have hlt := w.toInt_lt
    rw [toInt_signed l hw]
    exact lt_signed l (by omega)

/-! ## Steps within the bounds -/

section Steps

variable {t : DecisionTable}

theorem InRange.decide (h : t.InRange) {l : Literal} {reason : Reason}
    (hfits : t.Fits (.decide l reason)) :
    (t.decide l reason).2.toDecisions = (t.toDecisions.decide l reason).2 ∧
      (t.decide l reason).2.InRange := by
  unfold DecisionTable.decide Decisions.decide
  rw [value?_toDecisions]
  cases hv : t.value? l with
  | some agrees => exact ⟨rfl, h⟩
  | none =>
    have hzero : t.word l = 0 := by
      by_cases h0 : t.word l = 0
      · exact h0
      · rw [DecisionTable.value?, if_neg h0] at hv
        exact absurd hv (Option.some_ne_none _)
    have hstamp := toInt_stamp_of_lt (hfits hzero)
    constructor
    · unfold toDecisions
      rw [map_setWordOf, toInt_signed l hstamp]
    · exact fun w hw => h.setWordOf _ l hstamp hw

theorem InRange.override (h : t.InRange) {l : Literal} {reason : Reason}
    (hfits : t.Fits (.override l reason)) :
    (t.override l reason).toDecisions = t.toDecisions.override l reason ∧
      (t.override l reason).InRange := by
  -- the new word before it gets its sign: that of the level kept, or of the current one
  have hword : (if t.word l = 0 then stamp t.level else (t.word l).abs).toInt =
      ((t.toDecisions.level? l).getD t.toDecisions.level + 1 : Nat) := by
    unfold Decisions.level?
    rw [signedLevel_toDecisions]
    by_cases hzero : t.word l = 0
    · rw [if_pos hzero, if_pos (toInt_eq_zero_iff.mpr hzero)]
      exact toInt_stamp_of_lt (hfits hzero)
    · have hne : (t.word l).toInt ≠ 0 := fun h0 => hzero (toInt_eq_zero_iff.mp h0)
      rw [if_neg hzero, if_neg hne, toInt_abs (h.word l), Option.getD_some]
      omega
  constructor
  · unfold DecisionTable.override toDecisions
    dsimp only
    rw [map_setWordOf, toInt_signed l hword]
    rfl
  · exact fun w hw => h.setWordOf _ l hword hw

theorem InRange.revert (h : t.InRange) {level : UInt32} (hfits : t.Fits (.revert level)) :
    (t.revert level).toDecisions = t.toDecisions.revert level.toNat ∧
      (t.revert level).InRange := by
  -- a word is above the stamp exactly if its level is above the one gone back to
  have hmap : (t.revert level).words.map Int32.toInt =
      t.toDecisions.levels.map fun v => if level.toNat + 1 < v.natAbs then 0 else v := by
    unfold DecisionTable.revert toDecisions
    rw [Array.map_map, Array.map_map]
    refine Array.map_congr_left fun w hw => ?_
    have habove : stamp level < w.abs ↔ level.toNat + 1 < w.toInt.natAbs := by
      rw [Int32.lt_iff_toInt_lt, toInt_stamp_of_lt hfits, toInt_abs (h w hw)]
      exact Int.ofNat_lt
    simp only [Function.comp_apply, habove]
    split <;> rfl
  constructor
  · have hkept : ∀ p, ((t.revert level).words.getD p 0 != 0) =
        (((t.revert level).words.map Int32.toInt).getD p 0 != 0) := by
      intro p
      rw [getD_map_toInt, Bool.eq_iff_iff, bne_iff_ne, bne_iff_ne]
      exact not_congr toInt_eq_zero_iff.symm
    have hqueue : (t.revert level).queue =
        t.queue.filter fun q => (t.revert level).words.getD q.1.natAbs 0 != 0 := rfl
    unfold Decisions.revert
    rw [← hmap, toDecisions, hqueue]
    simp only [hkept]
    rfl
  · intro w hw
    obtain ⟨x, hx, rfl⟩ := Array.mem_map.mp hw
    split
    · decide
    · exact h x hx

theorem toDecisions_reset (t : DecisionTable) : t.reset.toDecisions = t.toDecisions.reset := by
  unfold reset toDecisions Decisions.reset
  rw [Array.map_map, Array.map_map]
  rfl

theorem inRange_reset (t : DecisionTable) : t.reset.InRange := by
  intro w hw
  obtain ⟨-, -, rfl⟩ := Array.mem_map.mp hw
  decide

/-- A step that fits is the step on the decisions that the table stands for. -/
theorem InRange.apply (h : t.InRange) {s : DecisionStep} (hfits : t.Fits s) :
    (t.apply s).toDecisions = t.toDecisions.apply s ∧ (t.apply s).InRange := by
  cases s with
  | decide l reason => exact h.decide hfits
  | override l reason => exact h.override hfits
  | incrementLevel =>
    have hlevel : (t.level + 1).toNat = t.level.toNat + 1 := by
      rw [UInt32.toNat_add, UInt32.toNat_one]
      exact Nat.mod_eq_of_lt hfits
    refine ⟨?_, h⟩
    unfold DecisionTable.apply incrementLevel toDecisions
    rw [hlevel]
    rfl
  | setLevel level => exact ⟨rfl, h⟩
  | revert level => exact h.revert hfits
  | reset => exact ⟨toDecisions_reset t, inRange_reset t⟩

end Steps

/-- A run that fits is the run on the decisions that the table stands for. -/
theorem InRange.run {steps : List DecisionStep} : ∀ {t : DecisionTable}, t.InRange →
    t.FitsAll steps →
    (steps.foldl DecisionTable.apply t).toDecisions = steps.foldl Decisions.apply t.toDecisions ∧
      (steps.foldl DecisionTable.apply t).InRange := by
  induction steps with
  | nil =>
    intro t h _
    exact ⟨rfl, h⟩
  | cons s rest ih =>
    intro t h hfits
    obtain ⟨hstep, hrange⟩ := h.apply hfits.1
    have hrest := ih hrange hfits.2
    rwa [hstep] at hrest

/-! ## The map and the queue after a run -/

/-- The map and the queue of a table tell the decisions of a trail. -/
structure Shows (t : DecisionTable) (trail : Trail) : Prop where
  level_eq : t.level.toNat = trail.level
  /-- The queue holds the decisions in their order, with their reasons. -/
  queue_eq : t.queue.toList = trail.decisions.map fun m => (m.literal, m.reason)
  /-- The map holds the sign and the level of each. -/
  word_eq : ∀ m ∈ trail.decisions,
    (t.word m.literal).toInt = Decisions.signed m.literal (m.level + 1)
  /-- The queue has one entry for each decided package and none for an undecided one. -/
  countP_eq : ∀ l, (t.queue.toList.countP fun q => q.1.natAbs == l.natAbs) =
    if t.word l = 0 then 0 else 1
  /-- An entry has the sign that the map records. -/
  pos_iff : ∀ q ∈ t.queue.toList, 0 < t.word q.1 ↔ 0 < q.1

theorem shows_of_toDecisions {t : DecisionTable} {trail : Trail} (h : t.toDecisions.Shows trail) :
    t.Shows trail where
  level_eq := h.level_eq
  queue_eq := h.queue_eq
  word_eq m hm := by rw [← signedLevel_toDecisions, h.signedLevel_eq hm]
  countP_eq l := by
    refine (h.coherent.countP_queue l).trans ?_
    rw [signedLevel_toDecisions]
    simp only [toInt_eq_zero_iff]
  pos_iff q hq := by
    have hs := Decisions.satisfies_iff.mp (h.coherent.satisfies_of_mem hq)
    rw [pos_iff_toInt_pos, ← signedLevel_toDecisions]
    exact hs.2

theorem inRange_ofSize (size : Nat) : (ofSize size).InRange := by
  intro w hw
  rw [(Array.mem_replicate.mp hw).2]
  decide

theorem shows_ofSize (size : Nat) : (ofSize size).toDecisions.Shows {} := by
  refine Decisions.shows_nil rfl rfl fun l => ?_
  have hzero : (ofSize size).word l = 0 := by
    unfold word ofSize
    rw [Array.getD_eq_getD_getElem?, Array.getElem?_replicate]
    split <;> rfl
  rw [signedLevel_toDecisions, hzero, Int32.toInt_zero]

/-- A literal is refused exactly if its opposite is decided. -/
theorem decide_eq_false_iff (t : DecisionTable) {l : Literal} (hl : l ≠ 0) (reason : Reason) :
    (t.decide l reason).1 = false ↔ t.value? (-l) = some true := by
  have hanswer : (t.decide l reason).1 = false ↔ t.value? l = some false := by
    unfold DecisionTable.decide
    cases t.value? l <;> simp
  have hopposite := Decisions.refutes_iff_satisfies_neg (d := t.toDecisions) hl
  rw [Decisions.refutes, Decisions.satisfies, value?_toDecisions, value?_toDecisions, beq_iff_eq,
    beq_iff_eq] at hopposite
  exact hanswer.trans hopposite

/-- A literal that is refused changes nothing. -/
theorem decide_snd_of_eq_false {t : DecisionTable} {l : Literal} {reason : Reason}
    (h : (t.decide l reason).1 = false) : (t.decide l reason).2 = t := by
  unfold DecisionTable.decide at h ⊢
  cases hv : t.value? l with
  | some agrees => rfl
  | none =>
    rw [hv] at h
    exact absurd h (by simp)

/-- **The map and the queue agree after any run within the bounds.** On a table of any size both
tell the decisions of the trail. A literal is then refused exactly if its opposite is decided, which
changes nothing, and going back to a level leaves out the decisions made above it and keeps the
others as they are. -/
theorem agree_after_run (size : Nat) {steps : List DecisionStep}
    (hnames : ∀ s ∈ steps, s.Names) (hfits : (ofSize size).FitsAll steps) :
    let t := steps.foldl DecisionTable.apply (ofSize size)
    let trail := steps.foldl Trail.apply {}
    t.Shows trail ∧
      (∀ (l : Literal) (reason : Reason), l ≠ 0 →
        ((t.decide l reason).1 = false ↔ t.value? (-l) = some true) ∧
        ((t.decide l reason).1 = false → (t.decide l reason).2 = t)) ∧
      ∀ level : UInt32, level.toNat + 1 < 2 ^ 31 →
        (t.revert level).Shows (trail.revert level.toNat) := by
  intro t trail
  obtain ⟨heq, hrange⟩ := (inRange_ofSize size).run hfits
  have hshows : t.toDecisions.Shows trail := heq ▸ (shows_ofSize size).run hnames
  refine ⟨shows_of_toDecisions hshows, ?_, ?_⟩
  · intro l reason hl
    exact ⟨t.decide_eq_false_iff hl reason, decide_snd_of_eq_false⟩
  · intro level hlevel
    have hroom : t.Fits (.revert level) := hlevel
    obtain ⟨hback, -⟩ := hrange.revert hroom
    exact shows_of_toDecisions (hback ▸ hshows.revert level.toNat)

/-- Three levels, a change of mind about the first and a way back to the second. -/
theorem agree_after_run_of_three_levels :
    let steps : List DecisionStep :=
      [.incrementLevel, .decide 1 (.unit 0), .incrementLevel, .decide 2 (.branch 3),
        .incrementLevel, .decide (-3) .keep, .override (-1) .cleanDeps]
    (∀ s ∈ steps, s.Names) ∧ (ofSize 0).FitsAll steps ∧
      ((steps.foldl DecisionTable.apply (ofSize 0)).revert 2).queue.toList =
        [(2, .branch 3), (-1, .cleanDeps)] := by
  intro steps
  have hnames : ∀ s ∈ steps, s.Names := by decide
  have hfits : (ofSize 0).FitsAll steps := by decide
  have hreverts := (agree_after_run 0 hnames hfits).2.2
  refine ⟨hnames, hfits, ?_⟩
  rw [(hreverts 2 (by decide)).queue_eq]
  rfl

/-! ## Steps beyond the bounds -/

/-- Going back to a level that no word has room for takes everything back. -/
theorem InRange.revert_of_le {t : DecisionTable} (h : t.InRange) {level : UInt32}
    (hlevel : 2 ^ 31 ≤ level.toNat + 1) :
    (t.revert level).queue = #[] ∧ ∀ l, (t.revert level).word l = 0 := by
  have hzero : ∀ p, (t.revert level).words.getD p 0 = 0 := by
    intro p
    unfold DecisionTable.revert
    rw [Array.getD_eq_getD_getElem?, Array.getElem?_map]
    cases hw : t.words[p]? with
    | none => rfl
    | some w =>
      have hrange := h w (Array.mem_of_getElem? hw)
      have hstamp := toInt_stamp_nonpos hlevel
      by_cases h0 : w = 0
      · rw [h0]
        exact ite_self 0
      · -- the size of a word that is not 0 is more than the stamp, which is not positive
        have hne : w.toInt ≠ 0 := fun hn => h0 (toInt_eq_zero_iff.mp hn)
        refine if_pos (Int32.lt_iff_toInt_lt.mpr ?_)
        rw [toInt_abs hrange]
        omega
  refine ⟨?_, fun l => hzero l.natAbs⟩
  refine Array.filter_eq_empty_iff.mpr fun q _ hq => ?_
  exact bne_iff_ne.mp hq (hzero q.1.natAbs)

theorem word_decide {t : DecisionTable} {l : Literal} (reason : Reason) (hu : t.word l = 0) :
    (t.decide l reason).2.word l = signed l (stamp t.level) ∧
      (t.decide l reason).2.queue = t.queue.push (l, reason) := by
  unfold DecisionTable.decide value?
  rw [if_pos hu]
  refine ⟨?_, rfl⟩
  unfold word setWordOf
  rw [Array.set!_eq_setIfInBounds, Array.getD_eq_getD_getElem?,
    Array.getElem?_setIfInBounds_self_of_lt, Option.getD_some]
  rw [Array.size_rightpad]
  omega

/-- A package decided to be present at a level that no word has room for is in the queue, but the
map does not have it present. -/
theorem not_pos_word_decide_of_le {t : DecisionTable} {l : Literal} (reason : Reason)
    (hl : 0 < l) (hu : t.word l = 0) (hlevel : 2 ^ 31 ≤ t.level.toNat + 1) :
    (l, reason) ∈ (t.decide l reason).2.queue.toList ∧ ¬0 < (t.decide l reason).2.word l := by
  obtain ⟨hword, hqueue⟩ := word_decide reason hu
  constructor
  · rw [hqueue, Array.toList_push]
    exact List.mem_append_right _ (List.mem_singleton_self _)
  · have hpositive : Decisions.isPositive l = true := decide_eq_true hl
    have hstamp := toInt_stamp_nonpos hlevel
    rw [hword, signed, if_pos hpositive, pos_iff_toInt_pos]
    omega

end DecisionTable

end DepSolver
