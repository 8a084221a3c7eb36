import Mathlib.Algebra.Group.Nat.Defs
import DepSolver.Evr

/-!
# Version texts compare as rows of tokens

`Version.compare` walks two texts at once, and at every step looks at both of them to find out what
stands next. What it computes can be said of one text at a time: a text is a row of *tokens*, and
its row ends with a place of its own, the end of the text. Two texts compare like their rows, place
by place. At a place, `~` comes before the end, the end before `^`, `^` before every run of letters
and those before every run of digits; two runs of letters compare character by character, and two
runs of digits by value.

So the comparison is that of an order. Triples of epoch, version and release inherit it where all of
them have a release; a missing release is equal to every other, which is no transitive relation.
-/

namespace DepSolver

namespace Version

/-- What a version text consists of, apart from the characters that only separate. -/
inductive Token where
  | tilde
  | caret
  /-- A maximal run of ASCII letters. -/
  | letters (run : List Char)
  /-- A maximal run of ASCII digits. -/
  | digits (run : List Char)
deriving DecidableEq, Repr

/-- The tokens of a text, in order. -/
def tokens : List Char → List Token
  | [] => []
  | c :: s =>
    if c = '~' then .tilde :: tokens s
    else if c = '^' then .caret :: tokens s
    else if c.isDigit then
      have := (List.dropWhile_sublist Char.isDigit (l := s)).length_le
      .digits (c :: s.takeWhile Char.isDigit) :: tokens (s.dropWhile Char.isDigit)
    else if c.isAlpha then
      have := (List.dropWhile_sublist Char.isAlpha (l := s)).length_le
      .letters (c :: s.takeWhile Char.isAlpha) :: tokens (s.dropWhile Char.isAlpha)
    else tokens s
termination_by s => s.length

/-- The places of a row of tokens: one for each of them, and one for the end, which holds none. -/
def row (ts : List Token) : List (Option Token) := ts.map some ++ [none]

@[simp] theorem row_nil : row [] = [none] := rfl

@[simp] theorem row_cons (t : Token) (ts : List Token) : row (t :: ts) = some t :: row ts := rfl

/-- The places of a text. -/
def places (s : List Char) : List (Option Token) := row (tokens s)

/-- The number that a run of digits stands for. -/
def value (run : List Char) : Nat := Nat.ofDigitChars 10 run 0

/-- The order of what may stand at a place. -/
def rank : Option Token → Nat
  | some .tilde => 0
  | none => 1
  | some .caret => 2
  | some (.letters _) => 3
  | some (.digits _) => 4

/-- Compares what stands at two places: two runs of one kind by what they say, others by rank. -/
def comparePlaces : Option Token → Option Token → Ordering
  | some (.letters a), some (.letters b) => Ord.compare a b
  | some (.digits a), some (.digits b) => Ord.compare (value a) (value b)
  | x, y => Ord.compare (rank x) (rank y)

/-! ## Runs -/

theorem compare_toNat (a b : Char) : Ord.compare a.toNat b.toNat = Ord.compare a b := by
  show compareOfLessAndEq a.toNat b.toNat = compareOfLessAndEq a b
  unfold compareOfLessAndEq
  have hlt : a.toNat < b.toNat ↔ a < b := Iff.rfl
  simp only [hlt, Char.toNat_inj]

theorem compareLetters_eq : ∀ a b : List Char, compareLetters a b = Ord.compare a b
  | [], [] => rfl
  | [], _ :: _ => rfl
  | _ :: _, [] => rfl
  | a :: as, b :: bs => by
      rw [compareLetters, List.compare_cons_cons, compare_toNat, compareLetters_eq as bs]

theorem value_cons (c : Char) (s : List Char) :
    value (c :: s) = 10 ^ s.length * (c.toNat - '0'.toNat) + value s := by
  unfold value
  rw [Nat.ofDigitChars_cons, Nat.ofDigitChars_eq_ofDigitChars_zero, Nat.mul_zero, Nat.zero_add]

/-- Leading zeros do not count. -/
theorem value_dropWhile (s : List Char) : value (s.dropWhile (· == '0')) = value s := by
  induction s with
  | nil => rfl
  | cons c s ih =>
      rw [List.dropWhile_cons]
      split
      · rename_i hc
        rw [beq_iff_eq.mp hc, value_cons, ih]
        simp
      · rfl

theorem digit_bounds {c : Char} (h : c.isDigit = true) :
    48 ≤ c.toNat ∧ c.toNat - '0'.toNat ≤ 9 := by
  have hc := Char.isDigit_iff_toNat.mp h
  have h0 : '0'.toNat = 48 := rfl
  have h9 : '9'.toNat = 57 := rfl
  omega

theorem value_lt {s : List Char} (h : ∀ c ∈ s, c.isDigit = true) : value s < 10 ^ s.length := by
  induction s with
  | nil => exact Nat.one_pos
  | cons c s ih =>
      obtain ⟨hc, hs⟩ := List.forall_mem_cons.mp h
      have hrest := ih hs
      have hhead := Nat.mul_le_mul_left (10 ^ s.length) (digit_bounds hc).2
      rw [value_cons, List.length_cons, Nat.pow_succ]
      omega

theorem le_value {c : Char} {s : List Char} (hc : c.isDigit = true) (h0 : c ≠ '0') :
    10 ^ s.length ≤ value (c :: s) := by
  have hpos : 1 ≤ c.toNat - '0'.toNat := by
    have h48 : '0'.toNat = 48 := rfl
    have hne : c.toNat ≠ '0'.toNat := fun h => h0 (Char.toNat_inj.mp h)
    have := (digit_bounds hc).1
    omega
  have hhead := Nat.mul_le_mul_left (10 ^ s.length) hpos
  rw [value_cons]
  omega

/-- Of two numbers the leading parts decide, and then the rests. -/
theorem compare_mul_add {k m n x y : Nat} (hx : x < k) (hy : y < k) :
    Ord.compare (k * m + x) (k * n + y) = (Ord.compare m n).then (Ord.compare x y) := by
  rcases Nat.lt_trichotomy m n with hlt | rfl | hgt
  · have hstep := Nat.mul_le_mul_left k (Nat.succ_le_of_lt hlt)
    rw [Nat.mul_succ] at hstep
    rw [Nat.compare_eq_lt.mpr hlt, Nat.compare_eq_lt.mpr (by omega), Ordering.lt_then]
  · rw [Nat.compare_eq_eq.mpr rfl, Ordering.eq_then, Nat.compare_eq_ite_lt,
      Nat.compare_eq_ite_lt]
    simp only [Nat.add_lt_add_iff_left]
  · have hstep := Nat.mul_le_mul_left k (Nat.succ_le_of_lt hgt)
    rw [Nat.mul_succ] at hstep
    rw [Nat.compare_eq_gt.mpr hgt, Nat.compare_eq_gt.mpr (by omega), Ordering.gt_then]

/-- Runs of equally many digits compare digit by digit as they do by value. -/
theorem compare_of_length_eq : ∀ {a b : List Char}, (∀ c ∈ a, c.isDigit = true) →
    (∀ c ∈ b, c.isDigit = true) → a.length = b.length →
      Ord.compare a b = Ord.compare (value a) (value b)
  | [], [], _, _, _ => rfl
  | [], _ :: _, _, _, h => absurd h (by simp)
  | _ :: _, [], _, _, h => absurd h (by simp)
  | c :: s, d :: t, ha, hb, h => by
      obtain ⟨hc, hs⟩ := List.forall_mem_cons.mp ha
      obtain ⟨hd, ht⟩ := List.forall_mem_cons.mp hb
      have hlength : s.length = t.length := Nat.succ.inj h
      have hhead : Ord.compare c d =
          Ord.compare (c.toNat - '0'.toNat) (d.toNat - '0'.toNat) := by
        have hc0 := (digit_bounds hc).1
        have hd0 := (digit_bounds hd).1
        have h0 : '0'.toNat = 48 := rfl
        have hlt : c.toNat < d.toNat ↔ c.toNat - '0'.toNat < d.toNat - '0'.toNat := by omega
        have hgt : d.toNat < c.toNat ↔ d.toNat - '0'.toNat < c.toNat - '0'.toNat := by omega
        rw [← compare_toNat, Nat.compare_eq_ite_lt, Nat.compare_eq_ite_lt]
        simp only [hlt, hgt]
      rw [List.compare_cons_cons, compare_of_length_eq hs ht hlength, value_cons, value_cons,
        hhead, hlength, compare_mul_add (hlength ▸ value_lt hs) (value_lt ht)]

/-- Without leading zeros the longer run is the greater number. -/
theorem value_lt_of_length_lt {a b : List Char} (ha : ∀ c ∈ a, c.isDigit = true)
    (hb : ∀ c ∈ b, c.isDigit = true) (hlead : b.head? ≠ some '0') (h : a.length < b.length) :
    value a < value b := by
  cases b with
  | nil => exact absurd h (Nat.not_lt_zero _)
  | cons d t =>
      have hd : d ≠ '0' := fun he => hlead (congrArg some he)
      calc value a < 10 ^ a.length := value_lt ha
        _ ≤ 10 ^ t.length := Nat.pow_le_pow_right (by decide) (Nat.le_of_lt_succ h)
        _ ≤ value (d :: t) := le_value (hb d (List.mem_cons_self ..)) hd

/-- **Runs of digits compare by value**, of whatever size. -/
theorem compareDigits_eq {a b : List Char} (ha : ∀ c ∈ a, c.isDigit = true)
    (hb : ∀ c ∈ b, c.isDigit = true) :
    compareDigits a b = Ord.compare (value a) (value b) := by
  have hdigits : ∀ {s : List Char}, (∀ c ∈ s, c.isDigit = true) →
      ∀ c ∈ s.dropWhile (· == '0'), c.isDigit = true := fun h c hc =>
    h c ((List.dropWhile_sublist _).subset hc)
  have hlead : ∀ s : List Char, (s.dropWhile (· == '0')).head? ≠ some '0' := by
    intro s h
    have hnot := List.head?_dropWhile_not (· == '0') s
    rw [h] at hnot
    exact absurd hnot (by decide)
  unfold compareDigits
  dsimp only
  rw [compareLetters_eq, ← value_dropWhile a, ← value_dropWhile b]
  generalize hs : a.dropWhile (· == '0') = s
  generalize ht : b.dropWhile (· == '0') = t
  have hds := hs ▸ hdigits ha
  have hdt := ht ▸ hdigits hb
  rcases Nat.lt_trichotomy s.length t.length with hlt | heq | hgt
  · have hvalue := value_lt_of_length_lt hds hdt (ht ▸ hlead b) hlt
    rw [Nat.compare_eq_lt.mpr hlt, Nat.compare_eq_lt.mpr hvalue, Ordering.lt_then]
  · rw [heq, Nat.compare_eq_eq.mpr rfl, Ordering.eq_then, compare_of_length_eq hds hdt heq]
  · have hvalue := value_lt_of_length_lt hdt hds (hs ▸ hlead a) hgt
    rw [Nat.compare_eq_gt.mpr hgt, Nat.compare_eq_gt.mpr hvalue, Ordering.gt_then]

/-! ## Places -/

/-- Separators hold no tokens. -/
theorem tokens_skipSeparators (s : List Char) : tokens (skipSeparators s) = tokens s := by
  induction s with
  | nil => rfl
  | cons c s ih =>
      unfold skipSeparators at ih ⊢
      rw [List.dropWhile_cons]
      split
      · rename_i hc
        simp only [isSegmentChar, Char.isAlphanum, Bool.not_eq_true', Bool.or_eq_false_iff,
          beq_eq_false_iff_ne] at hc
        obtain ⟨⟨⟨halpha, hdigit⟩, htilde⟩, hcaret⟩ := hc
        rw [ih, tokens, if_neg htilde, if_neg hcaret, hdigit, halpha, if_neg Bool.false_ne_true,
          if_neg Bool.false_ne_true]
      · rfl

section

variable {s s' : List Char} {a : Char}

theorem places_of_tokens {t : Token} (h : tokens (skipSeparators s) = t :: tokens s') :
    places s = some t :: places s' := by
  unfold places
  rw [← tokens_skipSeparators, h]
  rfl

theorem places_finish (h : skipSeparators s = []) : places s = [none] := by
  unfold places
  rw [← tokens_skipSeparators, h, tokens]
  rfl

theorem places_tilde (h : skipSeparators s = '~' :: s') :
    places s = some .tilde :: places s' := by
  refine places_of_tokens ?_
  rw [h, tokens, if_pos rfl]

theorem places_caret (h : skipSeparators s = '^' :: s') :
    places s = some .caret :: places s' := by
  refine places_of_tokens ?_
  rw [h, tokens, if_neg (by decide), if_pos rfl]

theorem places_digits (h : skipSeparators s = a :: s') (ha : a.isDigit = true) :
    places s = some (.digits (a :: s'.takeWhile Char.isDigit)) ::
      places (s'.dropWhile Char.isDigit) := by
  have htilde : a ≠ '~' := by
    rintro rfl
    exact absurd ha (by decide)
  have hcaret : a ≠ '^' := by
    rintro rfl
    exact absurd ha (by decide)
  refine places_of_tokens ?_
  rw [h, tokens, if_neg htilde, if_neg hcaret, if_pos ha]

theorem places_letters (h : skipSeparators s = a :: s') (htilde : a ≠ '~') (hcaret : a ≠ '^')
    (ha : a.isDigit = false) :
    places s = some (.letters (a :: s'.takeWhile Char.isAlpha)) ::
      places (s'.dropWhile Char.isAlpha) := by
  have hsegment : isSegmentChar a = true := by
    have hnot := List.head?_dropWhile_not (fun c => !isSegmentChar c) s
    unfold skipSeparators at h
    rw [h] at hnot
    exact Bool.not_eq_eq_eq_not.mp hnot
  have halpha : a.isAlpha = true := by
    unfold isSegmentChar Char.isAlphanum at hsegment
    rw [ha, beq_eq_false_iff_ne.mpr htilde, beq_eq_false_iff_ne.mpr hcaret] at hsegment
    simpa only [Bool.or_false] using hsegment
  refine places_of_tokens ?_
  rw [h, tokens, if_neg htilde, if_neg hcaret, ha, if_neg Bool.false_ne_true, if_pos halpha]

/-- What does not go on with a tilde or a caret, goes on with a run. -/
theorem exists_beyond_caret (h : skipSeparators s = a :: s') (htilde : a ≠ '~')
    (hcaret : a ≠ '^') : ∃ x xs, places s = x :: xs ∧ rank (some .caret) < rank x := by
  by_cases ha : a.isDigit = true
  · exact ⟨_, _, places_digits h ha, show 2 < 4 by decide⟩
  · exact ⟨_, _, places_letters h htilde hcaret (Bool.eq_false_iff.mpr ha),
      show 2 < 3 by decide⟩

theorem exists_beyond_finish (h : skipSeparators s = a :: s') (htilde : a ≠ '~') :
    ∃ x xs, places s = x :: xs ∧ rank none < rank x := by
  by_cases hcaret : a = '^'
  · subst hcaret
    exact ⟨_, _, places_caret h, by decide⟩
  · obtain ⟨x, xs, hplaces, hrank⟩ := exists_beyond_caret h htilde hcaret
    exact ⟨x, xs, hplaces, Nat.lt_of_succ_lt hrank⟩

theorem exists_beyond_tilde (h : ∀ s', skipSeparators s = '~' :: s' → False) :
    ∃ x xs, places s = x :: xs ∧ rank (some .tilde) < rank x := by
  cases hs : skipSeparators s with
  | nil => exact ⟨_, _, places_finish hs, by decide⟩
  | cons a s' =>
      have htilde : a ≠ '~' := by
        rintro rfl
        exact h s' hs
      obtain ⟨x, xs, hplaces, hrank⟩ := exists_beyond_finish hs htilde
      exact ⟨x, xs, hplaces, Nat.lt_of_succ_lt hrank⟩

end

/-! ## Rows of places -/

section

variable {x y : Option Token} {xs ys : List (Option Token)}

theorem compareLex_of_rank_lt (h : rank x < rank y) :
    List.compareLex comparePlaces (x :: xs) (y :: ys) = .lt := by
  have hxy : comparePlaces x y = .lt := by
    unfold comparePlaces
    split
    · exact absurd h (Nat.lt_irrefl _)
    · exact absurd h (Nat.lt_irrefl _)
    · exact Nat.compare_eq_lt.mpr h
  rw [List.compareLex_cons_cons, hxy, Ordering.lt_then]

theorem compareLex_of_lt_rank (h : rank y < rank x) :
    List.compareLex comparePlaces (x :: xs) (y :: ys) = .gt := by
  have hxy : comparePlaces x y = .gt := by
    unfold comparePlaces
    split
    · exact absurd h (Nat.lt_irrefl _)
    · exact absurd h (Nat.lt_irrefl _)
    · exact Nat.compare_eq_gt.mpr h
  rw [List.compareLex_cons_cons, hxy, Ordering.gt_then]

end

theorem rank_letters_lt (a b : List Char) :
    rank (some (.letters a)) < rank (some (.digits b)) := Nat.lt_succ_self 3

theorem isDigit_of_mem_run {a : Char} {s : List Char} (ha : a.isDigit = true) :
    ∀ c ∈ a :: s.takeWhile Char.isDigit, c.isDigit = true :=
  List.forall_mem_cons.mpr ⟨ha, List.all_eq_true.mp List.all_takeWhile⟩

/-- **Texts compare like their rows of places.** -/
theorem compareChars_eq (s t : List Char) :
    compareChars s t = List.compareLex comparePlaces (places s) (places t) := by
  fun_induction compareChars s t with
  | case1 s t hs ht =>
      rw [places_finish hs, places_finish ht]
      rfl
  | case2 s t s' t' hs ht _ _ ih =>
      rw [places_tilde hs, places_tilde ht, List.compareLex_cons_cons, ih]
      rfl
  | case3 s t s' hs ht =>
      obtain ⟨y, ys, hplaces, hrank⟩ := exists_beyond_tilde ht
      rw [places_tilde hs, hplaces, compareLex_of_rank_lt hrank]
  | case4 s t t' ht hs =>
      obtain ⟨x, xs, hplaces, hrank⟩ := exists_beyond_tilde hs
      rw [places_tilde ht, hplaces, compareLex_of_lt_rank hrank]
  | case5 s t b t' hb hs ht =>
      obtain ⟨y, ys, hplaces, hrank⟩ := exists_beyond_finish ht hb
      rw [places_finish hs, hplaces, compareLex_of_rank_lt hrank]
  | case6 s t a s' ha hs ht =>
      obtain ⟨x, xs, hplaces, hrank⟩ := exists_beyond_finish hs ha
      rw [places_finish ht, hplaces, compareLex_of_lt_rank hrank]
  | case7 s t s' t' hs ht _ _ ih =>
      rw [places_caret hs, places_caret ht, List.compareLex_cons_cons, ih]
      rfl
  | case8 s t s' b t' hb hb' hs ht =>
      obtain ⟨y, ys, hplaces, hrank⟩ := exists_beyond_caret ht hb hb'
      rw [places_caret hs, hplaces, compareLex_of_rank_lt hrank]
  | case9 s t a s' t' ha ha' hs ht =>
      obtain ⟨x, xs, hplaces, hrank⟩ := exists_beyond_caret hs ha ha'
      rw [places_caret ht, hplaces, compareLex_of_lt_rank hrank]
  -- both texts go on with a run
  | case10 s t a s' b t' _ ha hb _ ha' hb' hs ht _ _ _ _ _ _ hda hdb ih =>
      rw [places_digits hs hda, places_digits ht hdb, List.compareLex_cons_cons, ih,
        compareDigits_eq (isDigit_of_mem_run hda) (isDigit_of_mem_run hdb)]
      rfl
  | case11 s t a s' b t' _ ha hb _ ha' hb' hs ht _ _ _ _ _ _ hda hdb =>
      rw [places_digits hs hda, places_letters ht hb hb' (Bool.eq_false_iff.mpr hdb),
        compareLex_of_lt_rank (rank_letters_lt ..)]
  | case12 s t a s' b t' _ ha hb _ ha' hb' hs ht _ _ _ _ _ _ hda hdb =>
      rw [places_letters hs ha ha' (Bool.eq_false_iff.mpr hda), places_digits ht hdb,
        compareLex_of_rank_lt (rank_letters_lt ..)]
  | case13 s t a s' b t' _ ha hb _ ha' hb' hs ht _ _ _ _ _ _ hda hdb ih =>
      rw [places_letters hs ha ha' (Bool.eq_false_iff.mpr hda),
        places_letters ht hb hb' (Bool.eq_false_iff.mpr hdb), List.compareLex_cons_cons, ih,
        compareLetters_eq]
      rfl

theorem compare_eq (a b : String) : compare a b =
    List.compareLex comparePlaces (places a.toList) (places b.toList) :=
  compareChars_eq ..

/-! ## The order of places, and of texts -/

/-- The letters at a place, none if no run of letters stands there. -/
def letters : Option Token → List Char
  | some (.letters run) => run
  | _ => []

/-- The number at a place, zero if no run of digits stands there. -/
def number : Option Token → Nat
  | some (.digits run) => value run
  | _ => 0

/-- Two places compare by rank first, and what they hold is compared whatever it is. -/
theorem comparePlaces_eq : comparePlaces =
    compareLex (compareOn rank) (compareLex (compareOn letters) (compareOn number)) := by
  funext x y
  rcases x with _ | _ | _ | a | a <;> rcases y with _ | _ | _ | b | b
  case some.letters.some.letters => exact Ordering.then_eq.symm
  all_goals rfl

instance : Std.TransCmp comparePlaces := by
  rw [comparePlaces_eq]
  infer_instance

instance : Std.TransCmp compare where
  eq_swap {a b} := by
    rw [compare_eq, compare_eq]
    exact Std.OrientedCmp.eq_swap
  isLE_trans {a b c} hab hbc := by
    rw [compare_eq] at hab hbc ⊢
    exact Std.TransCmp.isLE_trans hab hbc

theorem swap_compare (a b : String) : (compare a b).swap = compare b a :=
  Std.OrientedCmp.eq_swap.symm

end Version

/-! ## Triples -/

/-- Elements may be ordered by something that they have. -/
theorem transCmp_on {α β : Type} (cmp : β → β → Ordering) [Std.TransCmp cmp] (f : α → β) :
    Std.TransCmp fun a b => cmp (f a) (f b) where
  eq_swap := Std.OrientedCmp.eq_swap
  isLE_trans := Std.TransCmp.isLE_trans

namespace Evr

instance : Std.OrientedCmp Evr.compare where
  eq_swap {a b} := by
    unfold Evr.compare
    rw [Ordering.swap_then, Ordering.swap_then, ← Std.OrientedCmp.eq_swap, Version.swap_compare]
    cases a.release with
    | none => cases b.release <;> rfl
    | some r =>
      cases b.release with
      | none => rfl
      | some s => rw [Version.swap_compare]

/-- The triples that have a release. -/
abbrev Released := { e : Evr // e.release.isSome = true }

namespace Released

def release (e : Released) : String := e.1.release.get e.2

def compare (e f : Released) : Ordering := e.1.compare f.1

theorem compare_eq : Released.compare =
    compareLex (compareOn (·.1.epoch)) (compareLex
      (fun e f => Version.compare e.1.version f.1.version)
      (fun e f => Version.compare e.release f.release)) := by
  funext e f
  obtain ⟨⟨m, v, r⟩, hr⟩ := e
  obtain ⟨⟨n, w, s⟩, hs⟩ := f
  obtain ⟨r, rfl⟩ := Option.isSome_iff_exists.mp hr
  obtain ⟨s, rfl⟩ := Option.isSome_iff_exists.mp hs
  rfl

instance : Std.TransCmp Released.compare := by
  have hversion := transCmp_on Version.compare fun e : Released => e.1.version
  have hrelease := transCmp_on Version.compare Released.release
  rw [compare_eq]
  infer_instance

end Released

/-- Versions that have a release are in order. -/
theorem not_lt_trans {a b c : Evr} (ha : a.release.isSome = true)
    (hb : b.release.isSome = true) (hc : c.release.isSome = true) (hab : a.compare b ≠ .lt)
    (hbc : b.compare c ≠ .lt) : a.compare c ≠ .lt := by
  have htrans := @Std.TransCmp.isGE_trans _ Evr.Released.compare _ ⟨a, ha⟩ ⟨b, hb⟩ ⟨c, hc⟩
  exact Ordering.isGE_iff_ne_lt.mp
    (htrans (Ordering.isGE_iff_ne_lt.mpr hab) (Ordering.isGE_iff_ne_lt.mpr hbc))

end Evr

/--
**Version texts are ordered by their tokens.**

The comparison of two texts is the lexicographic one of their rows of places, so texts are totally
preordered: to swap two texts swaps the answer, and not to be greater is transitive. The comparison
of triples swaps in the same way, and is transitive among those that have a release.
-/
theorem compare_by_tokens :
    (∀ a b, Version.compare a b = List.compareLex Version.comparePlaces
      (Version.places a.toList) (Version.places b.toList)) ∧
    ((∀ a b, Version.compare b a = (Version.compare a b).swap) ∧
      ∀ a b c, (Version.compare a b).isLE = true → (Version.compare b c).isLE = true →
        (Version.compare a c).isLE = true) ∧
    (∀ e f : Evr, f.compare e = (e.compare f).swap) ∧
    ∀ e f g : Evr, e.release.isSome = true → f.release.isSome = true → g.release.isSome = true →
      (e.compare f).isLE = true → (f.compare g).isLE = true → (e.compare g).isLE = true := by
  refine ⟨Version.compare_eq, ⟨?_, ?_⟩, ?_, ?_⟩
  · exact fun a b => (Version.swap_compare a b).symm
  · exact fun a b c hab hbc => Std.TransCmp.isLE_trans hab hbc
  · exact fun e f => Std.OrientedCmp.eq_swap
  · intro e f g he hf hg hef hfg
    have htrans := @Std.TransCmp.isLE_trans _ Evr.Released.compare _ ⟨e, he⟩ ⟨f, hf⟩ ⟨g, hg⟩
    exact htrans hef hfg

/-- A version before its release, released, and after it, each packaged once. -/
def preview : Evr := { epoch := 0, version := "1.0~rc1", release := some "1" }

def stable : Evr := { epoch := 0, version := "1.0", release := some "1" }

def snapshot : Evr := { epoch := 0, version := "1.00^git7", release := some "1" }

/-- The tilde comes before the end of the text and the caret after it. -/
theorem compare_by_tokens_preview :
    (preview.compare stable).isLE = true ∧ (stable.compare snapshot).isLE = true ∧
      (preview.compare snapshot).isLE = true := by
  have hpreview : (preview.compare stable).isLE = true := by decide +kernel
  have hstable : (stable.compare snapshot).isLE = true := by decide +kernel
  exact ⟨hpreview, hstable,
    compare_by_tokens.2.2.2 preview stable snapshot rfl rfl rfl hpreview hstable⟩

/-- Without a release in the middle the order is lost. -/
example : ({ stable with release := some "2" }.compare { stable with release := none }).isLE ∧
    ({ stable with release := none }.compare stable).isLE ∧
    ({ stable with release := some "2" }.compare stable) = .gt := by decide +kernel

end DepSolver
