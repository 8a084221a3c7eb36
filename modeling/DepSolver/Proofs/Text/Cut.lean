import DepSolver.Text.Blank
import DepSolver.Text.Numeral
import DepSolver.Text.Split

/-!
# Cutting texts, and putting them together again

A text is cut at a separator, at the end of a run of characters, or at the blanks around it. Each
cut undoes a joining: what is put together with the separator between its parts is cut into the same
parts, as long as the separator does not occur where it would be found first. The decimal digits of a
number are read as that number.
-/

namespace DepSolver

namespace Text

/-! ## Cutting at a separator -/

theorem splitFirst_eq_none {sep : Char} {s : List Char} : splitFirst sep s = none ↔ sep ∉ s := by
  induction s with
  | nil => simp [splitFirst]
  | cons c s ih =>
      rw [splitFirst, List.mem_cons, not_or]
      split
      · rename_i hc
        simp [hc]
      · rename_i hc
        rw [Option.map_eq_none_iff, ih]
        exact (and_iff_right fun h => hc h.symm).symm

/-- A text is cut at the first separator if there is none before it. -/
theorem splitFirst_append {sep : Char} {before : List Char} (h : sep ∉ before)
    (after : List Char) : splitFirst sep (before ++ sep :: after) = some (before, after) := by
  induction before with
  | nil => exact if_pos rfl
  | cons c before ih =>
      rw [List.mem_cons, not_or] at h
      rw [List.cons_append, splitFirst, if_neg fun hc => h.1 hc.symm, ih h.2]
      rfl

theorem splitFirst_eq_some {sep : Char} {s before after : List Char}
    (h : splitFirst sep s = some (before, after)) : s = before ++ sep :: after ∧ sep ∉ before := by
  induction s generalizing before with
  | nil => exact absurd h (by simp [splitFirst])
  | cons c s ih =>
      rw [splitFirst] at h
      split at h
      · rename_i hc
        obtain ⟨rfl, rfl⟩ := Prod.mk.inj (Option.some.inj h)
        exact ⟨by rw [hc]; rfl, List.not_mem_nil⟩
      · rename_i hc
        obtain ⟨⟨b, a⟩, hparts, heq⟩ := Option.map_eq_some_iff.mp h
        obtain ⟨rfl, rfl⟩ := Prod.mk.inj heq
        obtain ⟨rfl, hb⟩ := ih hparts
        refine ⟨rfl, fun hmem => ?_⟩
        rcases List.mem_cons.mp hmem with he | hmem
        · exact hc he.symm
        · exact hb hmem

theorem splitLast_eq_none {sep : Char} {s : List Char} : splitLast sep s = none ↔ sep ∉ s := by
  induction s with
  | nil => simp [splitLast]
  | cons c s ih =>
      rw [splitLast, List.mem_cons, not_or]
      cases hrest : splitLast sep s with
      | some parts =>
          dsimp only
          rw [hrest] at ih
          simp [← ih]
      | none =>
          dsimp only
          rw [hrest] at ih
          have hs := ih.mp rfl
          split
          · rename_i hc
            simp [hc]
          · rename_i hc
            exact iff_of_true rfl ⟨fun h => hc h.symm, hs⟩

/-- A text is cut at the last separator if there is none after it. -/
theorem splitLast_append {sep : Char} (before : List Char) {after : List Char} (h : sep ∉ after) :
    splitLast sep (before ++ sep :: after) = some (before, after) := by
  induction before with
  | nil =>
      rw [List.nil_append, splitLast, splitLast_eq_none.mpr h]
      exact if_pos rfl
  | cons c before ih =>
      rw [List.cons_append, splitLast, ih]

theorem splitLast_eq_some {sep : Char} {s before after : List Char}
    (h : splitLast sep s = some (before, after)) : s = before ++ sep :: after ∧ sep ∉ after := by
  induction s generalizing before with
  | nil => exact absurd h (by simp [splitLast])
  | cons c s ih =>
      rw [splitLast] at h
      cases hrest : splitLast sep s with
      | some parts =>
          rw [hrest] at h
          obtain ⟨rfl, rfl⟩ := Prod.mk.inj (Option.some.inj h)
          obtain ⟨rfl, ha⟩ := ih hrest
          exact ⟨rfl, ha⟩
      | none =>
          rw [hrest] at h
          dsimp only at h
          split at h
          · rename_i hc
            obtain ⟨rfl, rfl⟩ := Prod.mk.inj (Option.some.inj h)
            exact ⟨by rw [hc]; rfl, splitLast_eq_none.mp hrest⟩
          · exact absurd h (by simp)

/-! ## Runs of characters -/

/-- A run of characters ends at the first that does not belong to it. -/
theorem cut_run {p : Char → Bool} {run : List Char} {c : Char} (after : List Char)
    (hrun : ∀ x ∈ run, p x = true) (hc : p c = false) :
    (run ++ c :: after).takeWhile p = run ∧ (run ++ c :: after).dropWhile p = c :: after := by
  have hstop : ¬p c = true := by
    rw [hc]
    exact Bool.false_ne_true
  rw [List.takeWhile_append_of_pos hrun, List.dropWhile_append_of_pos hrun,
    List.takeWhile_cons_of_neg hstop, List.dropWhile_cons_of_neg hstop, List.append_nil]
  exact ⟨rfl, rfl⟩

theorem cut_all {p : Char → Bool} {run : List Char} (hrun : ∀ x ∈ run, p x = true) :
    run.takeWhile p = run ∧ run.dropWhile p = [] := by
  have htake : (run ++ []).takeWhile p = run ++ [] := List.takeWhile_append_of_pos hrun
  have hdrop : (run ++ []).dropWhile p = [] := List.dropWhile_append_of_pos hrun
  rw [List.append_nil] at htake hdrop
  exact ⟨htake, hdrop⟩

/-- Whether a text does not go on with a character of some kind. -/
def Leaves (p : Char → Bool) (s : List Char) : Prop := ∀ c, s.head? = some c → p c = false

section

variable {p : Char → Bool} {s t : List Char}

theorem Leaves.cons {c : Char} (h : p c = false) : Leaves p (c :: s) := fun _ hc =>
  Option.some.inj hc ▸ h

theorem Leaves.all (h : ∀ c ∈ s, p c = false) : Leaves p s := fun c hc =>
  h c (List.mem_of_mem_head? hc)

theorem Leaves.append (hne : s ≠ []) (h : ∀ c ∈ s, p c = false) : Leaves p (s ++ t) := by
  obtain ⟨c, s, rfl⟩ := List.exists_cons_of_ne_nil hne
  exact .cons (h c (List.mem_cons_self ..))

/-- What stands in front may be missing. -/
theorem Leaves.behind (h : ∀ c ∈ s, p c = false) (ht : Leaves p t) : Leaves p (s ++ t) := by
  cases s with
  | nil => exact ht
  | cons c s => exact .cons (h c (List.mem_cons_self ..))

/-- A run of characters ends where a text leaves them. -/
theorem cut {run : List Char} (rest : List Char) (hrun : ∀ x ∈ run, p x = true)
    (hrest : Leaves p rest) :
    (run ++ rest).takeWhile p = run ∧ (run ++ rest).dropWhile p = rest := by
  cases rest with
  | nil =>
      rw [List.append_nil]
      exact cut_all hrun
  | cons c rest => exact cut_run rest hrun (hrest c rfl)

end

/-! ## Blanks around a text -/

/-- Whether a text does not begin with a blank. -/
def FrontBare (s : List Char) : Prop := s.head?.all (!isBlank ·) = true

/-- Whether a text does not end with a blank. -/
def BackBare (s : List Char) : Prop := s.getLast?.all (!isBlank ·) = true

instance (s : List Char) : Decidable (FrontBare s) := inferInstanceAs (Decidable (_ = true))

instance (s : List Char) : Decidable (BackBare s) := inferInstanceAs (Decidable (_ = true))

theorem trimLeft_eq_self {s : List Char} (h : FrontBare s) : trimLeft s = s := by
  cases s with
  | nil => rfl
  | cons c s =>
      unfold FrontBare at h
      rw [List.head?_cons, Option.all_some, Bool.not_eq_true'] at h
      exact List.dropWhile_cons_of_neg (by rw [h]; exact Bool.false_ne_true)

theorem frontBare_trimLeft (s : List Char) : FrontBare (trimLeft s) := by
  unfold FrontBare trimLeft
  have h := List.head?_dropWhile_not isBlank s
  cases hs : (s.dropWhile isBlank).head? with
  | none => rfl
  | some c =>
      rw [hs] at h
      rw [Option.all_some, h]
      rfl

theorem backBare_iff {s : List Char} : BackBare s ↔ FrontBare s.reverse := by
  unfold BackBare FrontBare
  rw [List.head?_reverse]

theorem trimRight_eq_self {s : List Char} (h : BackBare s) : trimRight s = s := by
  have hrev := trimLeft_eq_self (backBare_iff.mp h)
  unfold trimLeft at hrev
  unfold trimRight
  rw [hrev, List.reverse_reverse]

theorem backBare_trimRight (s : List Char) : BackBare (trimRight s) := by
  rw [backBare_iff]
  unfold trimRight
  rw [List.reverse_reverse]
  exact frontBare_trimLeft _

theorem trim_eq_self {s : List Char} (hfront : FrontBare s) (hback : BackBare s) : trim s = s := by
  unfold trim
  rw [trimLeft_eq_self hfront, trimRight_eq_self hback]

theorem length_trimLeft_le (s : List Char) : (trimLeft s).length ≤ s.length :=
  (List.dropWhile_sublist _).length_le

theorem length_trimRight_le (s : List Char) : (trimRight s).length ≤ s.length := by
  have h := length_trimLeft_le s.reverse
  unfold trimLeft at h
  unfold trimRight
  rw [List.length_reverse] at h
  rwa [List.length_reverse]

theorem length_trim_le (s : List Char) : (trim s).length ≤ s.length :=
  Nat.le_trans (length_trimRight_le _) (length_trimLeft_le s)

theorem mem_of_mem_trim {s : List Char} {c : Char} (h : c ∈ trim s) : c ∈ s := by
  unfold trim trimRight at h
  rw [List.mem_reverse] at h
  have hright := (List.dropWhile_sublist _).subset h
  rw [List.mem_reverse] at hright
  exact (List.dropWhile_sublist _).subset hright

/-- What begins with a blank gets shorter. -/
theorem frontBare_of_length_trim {s : List Char} (h : s.length ≤ (trim s).length) :
    FrontBare s := by
  cases s with
  | nil => rfl
  | cons c s =>
      unfold FrontBare
      rw [List.head?_cons, Option.all_some, Bool.not_eq_true', Bool.eq_false_iff]
      intro hblank
      have hcut : trimLeft (c :: s) = trimLeft s := List.dropWhile_cons_of_pos hblank
      have hle := Nat.le_trans h (length_trimRight_le (trimLeft (c :: s)))
      rw [hcut, List.length_cons] at hle
      have := length_trimLeft_le s
      omega

/-- Blanks at the end are all that is cut off a text that begins with none. -/
theorem trim_prefix {s : List Char} (h : FrontBare s) : trim s <+: s := by
  unfold trim
  rw [trimLeft_eq_self h]
  have hsuffix := (List.dropWhile_suffix (l := s.reverse) isBlank).reverse
  rwa [List.reverse_reverse] at hsuffix

theorem FrontBare.append {s t : List Char} (h : FrontBare s) (hne : s ≠ []) :
    FrontBare (s ++ t) := by
  cases s with
  | nil => exact absurd rfl hne
  | cons c s => exact h

theorem BackBare.append {s t : List Char} (h : BackBare t) (hne : t ≠ []) : BackBare (s ++ t) := by
  rw [backBare_iff] at h ⊢
  rw [List.reverse_append]
  exact h.append fun hnil => hne (List.reverse_eq_nil_iff.mp hnil)

theorem FrontBare.of_append {s t : List Char} (h : FrontBare (s ++ t)) (hne : s ≠ []) :
    FrontBare s := by
  cases s with
  | nil => exact absurd rfl hne
  | cons c s => exact h

theorem BackBare.of_append {s t : List Char} (h : BackBare (s ++ t)) (hne : t ≠ []) :
    BackBare t := by
  rw [backBare_iff, List.reverse_append] at h
  exact backBare_iff.mpr (h.of_append fun hnil => hne (List.reverse_eq_nil_iff.mp hnil))

theorem frontBare_of_forall {s : List Char} (h : ∀ c ∈ s, isBlank c = false) :
    FrontBare s := by
  cases s with
  | nil => rfl
  | cons c s =>
      unfold FrontBare
      rw [List.head?_cons, Option.all_some, h c (List.mem_cons_self ..)]
      rfl

theorem trimLeft_blank {s : List Char} (h : FrontBare s) : trimLeft (' ' :: s) = s := by
  have hblank : isBlank ' ' = true := rfl
  unfold trimLeft
  rw [List.dropWhile_cons_of_pos hblank]
  exact trimLeft_eq_self h

/-! ## Numerals -/

theorem digit?_of_isDigit {c : Char} (h : c.isDigit = true) :
    digit? c = some (c.toNat - '0'.toNat) := if_pos h

/-- The value of some digits never falls below the value read before them. -/
theorem le_ofDigitChars (acc : Nat) (s : List Char) : acc ≤ Nat.ofDigitChars 10 s acc := by
  induction s generalizing acc with
  | nil => exact Nat.le_refl _
  | cons c s ih =>
      rw [Nat.ofDigitChars_cons]
      have := ih (10 * acc + (c.toNat - '0'.toNat))
      omega

theorem digitsBelow?_eq_some {bound : Nat} {s : List Char} (acc : Nat)
    (hdigits : ∀ c ∈ s, c.isDigit = true)
    (hbound : Nat.ofDigitChars 10 s acc < bound) :
    digitsBelow? bound acc s = some (Nat.ofDigitChars 10 s acc) := by
  induction s generalizing acc with
  | nil => rfl
  | cons c s ih =>
      obtain ⟨hc, hs⟩ := List.forall_mem_cons.mp hdigits
      rw [Nat.ofDigitChars_cons] at hbound ⊢
      have hstep := le_ofDigitChars (10 * acc + (c.toNat - '0'.toNat)) s
      rw [digitsBelow?, digit?_of_isDigit hc]
      dsimp only
      rw [if_pos (Nat.lt_of_le_of_lt hstep hbound)]
      exact ih _ hs hbound

/-- **A number is read back from its decimal digits.** -/
theorem readNumeral?_toDigits {bound n : Nat} (h : n < bound) :
    readNumeral? bound (Nat.toDigits 10 n) = some n := by
  have hdigits : ∀ c ∈ Nat.toDigits 10 n, c.isDigit = true := fun c hc =>
    Nat.isDigit_of_mem_toDigits (by decide) (by decide) hc
  have hvalue : Nat.ofDigitChars 10 (Nat.toDigits 10 n) 0 = n :=
    Nat.ofDigitChars_toDigits (by decide) (by decide)
  have hread := digitsBelow?_eq_some 0 hdigits (hvalue.symm ▸ h)
  rw [hvalue] at hread
  have hne : Nat.toDigits 10 n ≠ [] := Nat.toDigits_ne_nil
  unfold readNumeral?
  dsimp only
  generalize Nat.toDigits 10 n = s at hdigits hread hne
  split
  · -- a sign is no digit
    have hplus := hdigits '+' (List.mem_cons_self ..)
    exact absurd hplus (by decide)
  · rw [if_neg (by rw [List.isEmpty_iff]; exact hne)]
    exact hread

theorem isDigit_of_mem_toDigits {n : Nat} {c : Char} (h : c ∈ Nat.toDigits 10 n) :
    c.isDigit = true := Nat.isDigit_of_mem_toDigits (by decide) (by decide) h

theorem ne_of_isDigit {c sep : Char} (h : c.isDigit = true) (hsep : sep.isDigit = false) :
    sep ≠ c := by
  intro he
  rw [he, h] at hsep
  exact absurd hsep (by simp)

theorem colon_notMem_toDigits (n : Nat) : ':' ∉ Nat.toDigits 10 n := fun h =>
  ne_of_isDigit (isDigit_of_mem_toDigits h) rfl rfl

theorem isBlank_of_isDigit {c : Char} (h : c.isDigit = true) : isBlank c = false := by
  have hc := Char.isDigit_iff_toNat.mp h
  have h0 : '0'.toNat = 48 := rfl
  have h9 : '9'.toNat = 57 := rfl
  simp only [isBlank, blankRanges, List.any_cons, List.any_nil, Bool.or_false,
    Bool.or_eq_false_iff, Bool.and_eq_false_iff, decide_eq_false_iff_not]
  omega

theorem frontBare_toDigits (n : Nat) : FrontBare (Nat.toDigits 10 n) := by
  unfold FrontBare
  cases h : (Nat.toDigits 10 n).head? with
  | none => rfl
  | some c =>
      have hc := isDigit_of_mem_toDigits (List.mem_of_mem_head? h)
      rw [Option.all_some, isBlank_of_isDigit hc]
      rfl

end Text

end DepSolver
