import DepSolver.Proofs.Version.Tokens
import DepSolver.Relation

/-!
# Relations overlap where a version satisfies both

Whether two relations of one name overlap is told from their operators and from how their versions
compare. That no third version needs to be looked at is because versions have no ends and no gaps:

* A text goes on with `^` to one that comes after it, and with `^` and enough `~` to one that comes
  before anything else that does. Enough `~` alone come before any text.
* The same holds of triples with a release, whose releases are the last thing to be compared.
* So a pair of versions `a`, `b` leaves just the positions open that their comparison allows: a
  third one is below both, at the lower of them, between them, at the upper one, or above both, and
  each position is taken. The table of operators asks whether both admit one of these.
-/

namespace DepSolver

namespace Version

/-! ## Texts between texts -/

theorem takeWhile_append_caret {p : Char → Bool} (hp : p '^' = false) (s r : List Char) :
    (s ++ '^' :: r).takeWhile p = s.takeWhile p := by
  induction s with
  | nil => rw [List.nil_append, List.takeWhile_cons, hp]; rfl
  | cons c s ih => rw [List.cons_append, List.takeWhile_cons, List.takeWhile_cons, ih]

theorem dropWhile_append_caret {p : Char → Bool} (hp : p '^' = false) (s r : List Char) :
    (s ++ '^' :: r).dropWhile p = s.dropWhile p ++ '^' :: r := by
  induction s with
  | nil => rw [List.nil_append, List.dropWhile_cons, hp]; rfl
  | cons c s ih =>
      rw [List.cons_append, List.dropWhile_cons, List.dropWhile_cons, ih]
      split <;> rfl

theorem tokens_append_caret (s r : List Char) :
    tokens (s ++ '^' :: r) = tokens s ++ .caret :: tokens r := by
  fun_induction tokens s with
  | case1 => rw [List.nil_append, tokens, if_neg (by decide), if_pos rfl, List.nil_append]
  | case2 s ih => rw [List.cons_append, tokens, if_pos rfl, ih]; rfl
  | case3 s _ ih => rw [List.cons_append, tokens, if_neg (by decide), if_pos rfl, ih]; rfl
  | case4 c s htilde hcaret hdigit _ ih =>
      rw [List.cons_append, tokens, if_neg htilde, if_neg hcaret, if_pos hdigit,
        takeWhile_append_caret (by decide), dropWhile_append_caret (by decide), ih]
      rfl
  | case5 c s htilde hcaret hdigit halpha _ ih =>
      rw [List.cons_append, tokens, if_neg htilde, if_neg hcaret, if_neg hdigit, if_pos halpha,
        takeWhile_append_caret (by decide), dropWhile_append_caret (by decide), ih]
      rfl
  | case6 c s htilde hcaret hdigit halpha ih =>
      rw [List.cons_append, tokens, if_neg htilde, if_neg hcaret, if_neg hdigit, if_neg halpha, ih]

theorem tokens_tildes (n : Nat) : tokens (List.replicate n '~') = List.replicate n .tilde := by
  induction n with
  | zero => rw [List.replicate_zero, tokens, List.replicate_zero]
  | succ n ih => rw [List.replicate_succ, tokens, if_pos rfl, ih, List.replicate_succ]

/-- To go on with a caret comes after to end. -/
theorem row_lt_caret (xs zs : List Token) :
    List.compareLex comparePlaces (row xs) (row (xs ++ .caret :: zs)) = .lt := by
  induction xs with
  | nil => exact compareLex_of_rank_lt (x := none) (y := some .caret) (by decide)
  | cons x xs ih =>
      have hsame : comparePlaces (some x) (some x) = .eq := Std.ReflCmp.compare_self
      rw [List.cons_append, row_cons, row_cons, List.compareLex_cons_cons, hsame,
        Ordering.eq_then, ih]

/-- More tildes than another row has tokens come before it. -/
theorem tildes_lt {n : Nat} : ∀ {ys : List Token}, ys.length < n →
    List.compareLex comparePlaces (row (List.replicate n .tilde)) (row ys) = .lt := by
  induction n with
  | zero => exact fun h => absurd h (Nat.not_lt_zero _)
  | succ n ih =>
      intro ys h
      rw [List.replicate_succ, row_cons]
      cases ys with
      | nil => exact compareLex_of_rank_lt (x := some .tilde) (y := none) (by decide)
      | cons y ys =>
          rw [row_cons, List.compareLex_cons_cons, ih (Nat.lt_of_succ_lt_succ h)]
          cases y <;> rfl

/-- What comes after a row comes after it goes on with a caret and enough tildes, too. -/
theorem caret_tildes_lt {n : Nat} : ∀ {xs ys : List Token}, ys.length ≤ n →
    List.compareLex comparePlaces (row xs) (row ys) = .lt →
      List.compareLex comparePlaces (row (xs ++ .caret :: List.replicate n .tilde)) (row ys) = .lt
  | [], [], _, h => absurd h (by decide)
  | [], y :: ys, hn, h => by
      rw [List.nil_append, row_cons]
      cases y with
      | tilde => exact Ordering.noConfusion h
      | caret =>
          rw [row_cons, List.compareLex_cons_cons, tildes_lt hn]
          rfl
      | letters run => rfl
      | digits run => rfl
  | x :: xs, [], hn, h => by
      -- the first token decides, as nothing is less than no place at all
      rw [row_cons, row_nil, List.compareLex_cons_cons, Ordering.then_eq_lt] at h
      rw [List.cons_append, row_cons, row_nil, List.compareLex_cons_cons, Ordering.then_eq_lt]
      refine .inl (h.resolve_right fun h => ?_)
      cases xs <;> exact Ordering.noConfusion h.2
  | x :: xs, y :: ys, hn, h => by
      rw [row_cons, row_cons, List.compareLex_cons_cons, Ordering.then_eq_lt] at h
      rw [List.cons_append, row_cons, row_cons, List.compareLex_cons_cons, Ordering.then_eq_lt]
      exact h.imp_right fun h => ⟨h.1, caret_tildes_lt (Nat.le_of_succ_le hn) h.2⟩

/-- A text that comes after another one, the closer the more tildes it ends with. -/
def justAfter (s : String) (n : Nat) : String :=
  s ++ String.ofList ('^' :: List.replicate n '~')

theorem tokens_justAfter (s : String) (n : Nat) : tokens (justAfter s n).toList =
    tokens s.toList ++ .caret :: List.replicate n .tilde := by
  unfold justAfter
  rw [String.toList_append, String.toList_ofList, tokens_append_caret, tokens_tildes]

theorem compare_justAfter (s : String) (n : Nat) : compare s (justAfter s n) = .lt := by
  rw [compare_eq, places, places, tokens_justAfter]
  exact row_lt_caret ..

/-- **Between a text and a greater one there is another.** -/
theorem justAfter_compare {s t : String} (h : compare s t = .lt) :
    compare (justAfter s (tokens t.toList).length) t = .lt := by
  rw [compare_eq, places, places] at h ⊢
  rw [tokens_justAfter]
  exact caret_tildes_lt (Nat.le_refl _) h

/-- **There is no least text.** -/
theorem exists_compare_lt (t : String) : ∃ s, compare s t = .lt := by
  refine ⟨String.ofList (List.replicate ((tokens t.toList).length + 1) '~'), ?_⟩
  rw [compare_eq, places, places, String.toList_ofList, tokens_tildes]
  exact tildes_lt (Nat.lt_succ_self _)

end Version

/-! ## Triples between triples -/

namespace Evr.Released

variable {e f : Released}

/-- A triple of the same epoch and version. -/
def withRelease (e : Released) (r : String) : Released :=
  ⟨{ e.1 with release := some r }, rfl⟩

/-- How two triples compare apart from their releases. -/
def compareVersions (e f : Released) : Ordering :=
  (Ord.compare e.1.epoch f.1.epoch).then (Version.compare e.1.version f.1.version)

theorem compare_eq_then (e f : Released) :
    compare e f = (compareVersions e f).then (Version.compare e.release f.release) := by
  rw [compareVersions, Ordering.then_assoc, compare_eq]
  rfl

theorem compareVersions_self (e : Released) : compareVersions e e = .eq := by
  have hepoch : Ord.compare e.1.epoch e.1.epoch = .eq := Std.ReflCmp.compare_self
  have hversion : Version.compare e.1.version e.1.version = .eq := Std.ReflCmp.compare_self
  rw [compareVersions, hepoch, hversion, Ordering.eq_then]

theorem withRelease_compare (e f : Released) (r : String) : compare (e.withRelease r) f =
    (compareVersions e f).then (Version.compare r f.release) := compare_eq_then ..

theorem compare_withRelease (e : Released) (r : String) :
    compare e (e.withRelease r) = Version.compare e.release r := by
  have hself : compareVersions e (e.withRelease r) = .eq := compareVersions_self e
  rw [compare_eq_then, hself, Ordering.eq_then]
  rfl

theorem exists_below (e : Released) : ∃ g, compare g e = .lt := by
  obtain ⟨r, hr⟩ := Version.exists_compare_lt e.release
  refine ⟨e.withRelease r, ?_⟩
  rw [withRelease_compare, compareVersions_self, Ordering.eq_then, hr]

theorem exists_above (e : Released) : ∃ g, compare e g = .lt := by
  refine ⟨e.withRelease (Version.justAfter e.release 0), ?_⟩
  rw [compare_withRelease, Version.compare_justAfter]

/-- **Between two triples is another one.** -/
theorem exists_between (h : compare e f = .lt) : ∃ g, compare e g = .lt ∧ compare g f = .lt := by
  refine ⟨e.withRelease
    (Version.justAfter e.release (Version.tokens f.release.toList).length), ?_, ?_⟩
  · rw [compare_withRelease, Version.compare_justAfter]
  · rw [compare_eq_then, Ordering.then_eq_lt] at h
    rw [withRelease_compare, Ordering.then_eq_lt]
    exact h.imp_right fun h => ⟨h.1, Version.justAfter_compare h.2⟩

end Evr.Released

/-! ## Positions -/

/-- How a triple may compare to two others, given how these compare to each other: it is below,
between or above them, or equal to one of them. -/
def positions : Ordering → List (Ordering × Ordering)
  | .lt => [(.lt, .lt), (.eq, .lt), (.gt, .lt), (.gt, .eq), (.gt, .gt)]
  | .eq => [(.lt, .lt), (.eq, .eq), (.gt, .gt)]
  | .gt => [(.lt, .lt), (.lt, .eq), (.lt, .gt), (.eq, .gt), (.gt, .gt)]

theorem mem_positions_swap {p : Ordering × Ordering} {o : Ordering} :
    p.swap ∈ positions o.swap ↔ p ∈ positions o := by
  obtain ⟨x, y⟩ := p
  cases o <;> cases x <;> cases y <;> decide

/-- **Two ranges overlap if some position is in both.** -/
theorem Operator.overlaps_iff {op₁ op₂ : Operator} {o : Ordering} :
    op₁.overlaps op₂ o = true ↔
      ∃ p ∈ positions o, op₁.admits p.1 = true ∧ op₂.admits p.2 = true := by
  cases op₁ <;> cases op₂ <;> cases o <;> decide

namespace Evr.Released

variable {a b : Released}

/-- No triple has another position. -/
theorem mem_positions (e a b : Released) :
    (compare e a, compare e b) ∈ positions (compare a b) := by
  have hboth : ∀ {x : Ordering} (o : Ordering), x ≠ .eq → (x, x) ∈ positions o := by
    intro x o hx
    cases x <;> cases o <;> first | decide | contradiction
  cases ha : compare e a with
  | eq =>
      rw [Std.TransCmp.congr_left ha]
      cases compare a b <;> decide
  | lt =>
      have hea : compare a e = .gt := Std.OrientedCmp.gt_of_lt ha
      cases hb : compare e b with
      | lt => exact hboth _ Ordering.noConfusion
      | eq =>
          rw [← Std.TransCmp.congr_right hb, hea]
          decide
      | gt =>
          rw [Std.TransCmp.gt_trans hea hb]
          decide
  | gt =>
      have hae : compare a e = .lt := Std.OrientedCmp.lt_of_gt ha
      cases hb : compare e b with
      | lt =>
          rw [Std.TransCmp.lt_trans hae hb]
          decide
      | eq =>
          rw [← Std.TransCmp.congr_right hb, hae]
          decide
      | gt => exact hboth _ Ordering.noConfusion

/-- Triples have every position around two that differ. -/
theorem exists_position_of_lt (h : compare a b = .lt) {p : Ordering × Ordering}
    (hp : p ∈ positions .lt) : ∃ e, compare e a = p.1 ∧ compare e b = p.2 := by
  have hself : ∀ e : Released, compare e e = .eq := fun _ => Std.ReflCmp.compare_self
  simp only [positions, List.mem_cons, List.not_mem_nil, or_false] at hp
  rcases hp with rfl | rfl | rfl | rfl | rfl
  · obtain ⟨e, he⟩ := a.exists_below
    exact ⟨e, he, Std.TransCmp.lt_trans he h⟩
  · exact ⟨a, hself a, h⟩
  · obtain ⟨e, hae, heb⟩ := exists_between h
    exact ⟨e, Std.OrientedCmp.gt_of_lt hae, heb⟩
  · exact ⟨b, Std.OrientedCmp.gt_of_lt h, hself b⟩
  · obtain ⟨e, he⟩ := b.exists_above
    exact ⟨e, Std.OrientedCmp.gt_of_lt (Std.TransCmp.lt_trans h he), Std.OrientedCmp.gt_of_lt he⟩

theorem exists_position_of_eq (h : compare a b = .eq) {p : Ordering × Ordering}
    (hp : p ∈ positions .eq) : ∃ e, compare e a = p.1 ∧ compare e b = p.2 := by
  have hsame : ∀ e, compare e a = compare e b := fun e => Std.TransCmp.congr_right h
  have hexists : ∀ o, ∃ e, compare e a = o := by
    intro o
    cases o with
    | lt => exact a.exists_below
    | eq => exact ⟨a, Std.ReflCmp.compare_self⟩
    | gt =>
        obtain ⟨e, he⟩ := a.exists_above
        exact ⟨e, Std.OrientedCmp.gt_of_lt he⟩
  obtain ⟨e, he⟩ := hexists p.1
  refine ⟨e, he, ?_⟩
  rw [← hsame, he]
  simp only [positions, List.mem_cons, List.not_mem_nil, or_false] at hp
  rcases hp with rfl | rfl | rfl <;> rfl

/-- **Every position is that of some triple.** -/
theorem exists_position {p : Ordering × Ordering} (hp : p ∈ positions (compare a b)) :
    ∃ e, compare e a = p.1 ∧ compare e b = p.2 := by
  cases h : compare a b with
  | lt => exact exists_position_of_lt h (h ▸ hp)
  | eq => exact exists_position_of_eq h (h ▸ hp)
  | gt =>
      have hp' : p.swap ∈ positions .lt := mem_positions_swap.mpr (h ▸ hp : p ∈ positions .gt)
      obtain ⟨e, hb, ha⟩ := exists_position_of_lt (Std.OrientedCmp.lt_of_gt h) hp'
      exact ⟨e, ha, hb⟩

/-- **Ranges overlap exactly if some triple is in both.** -/
theorem overlaps_iff_exists (a b : Released) (op₁ op₂ : Operator) :
    op₁.overlaps op₂ (compare a b) = true ↔
      ∃ e, op₁.admits (compare e a) = true ∧ op₂.admits (compare e b) = true := by
  rw [Operator.overlaps_iff]
  refine ⟨?_, ?_⟩
  · intro h
    obtain ⟨p, hp, h₁, h₂⟩ := h
    obtain ⟨e, ha, hb⟩ := exists_position hp
    exact ⟨e, ha ▸ h₁, hb ▸ h₂⟩
  · intro h
    obtain ⟨e, h₁, h₂⟩ := h
    exact ⟨_, mem_positions e a b, h₁, h₂⟩

/-- No range is empty. -/
theorem exists_admitted (op : Operator) (a : Released) :
    ∃ e, op.admits (compare e a) = true := by
  have hself : op.overlaps op (compare a a) = true := by
    have hsame : compare a a = .eq := Std.ReflCmp.compare_self
    rw [hsame]
    cases op <;> rfl
  obtain ⟨e, h, -⟩ := (overlaps_iff_exists a a op op).mp hself
  exact ⟨e, h⟩

end Evr.Released

/-! ## Relations -/

namespace Relation

variable {r s : Relation}

/-- Whether a relation has no constraint, or one by a triple with a release. -/
def IsExact (r : Relation) : Prop :=
  ∀ op evr, r.constraint = some (op, evr) → evr.release.isSome = true

/-- A relation by itself holds of some triple. -/
theorem IsExact.exists_matches (h : r.IsExact) :
    ∃ e : Evr.Released, r.matchesEvr e.1 = true := by
  unfold matchesEvr
  cases hc : r.constraint with
  | none => exact ⟨⟨{ (default : Evr) with release := some "" }, rfl⟩, rfl⟩
  | some c =>
      obtain ⟨op, evr⟩ := c
      exact Evr.Released.exists_admitted op ⟨evr, h op evr hc⟩

theorem intersects_of_unconstrained (hname : r.name = s.name)
    (h : r.constraint = none ∨ s.constraint = none) : r.intersects s = true := by
  unfold intersects
  rw [hname, beq_self_eq_true, Bool.true_and]
  split
  · rename_i hr hs
    rw [hr, hs] at h
    exact absurd h (by simp)
  · rfl

end Relation

/--
**Relations overlap exactly where a version satisfies both.**

The test looks at the operators and at how the two versions compare, and at no third version. That
is enough because versions have no ends and no gaps: below, above and between any two there are
others, so every position that the operators speak of is that of some version.
-/
theorem intersects_iff_exists (r s : Relation) (hname : r.name = s.name) (hr : r.IsExact)
    (hs : s.IsExact) : r.intersects s = true ↔
      ∃ e : Evr, e.release.isSome = true ∧ r.matchesEvr e = true ∧ s.matchesEvr e = true := by
  cases hrc : r.constraint with
  | none =>
      -- only the other relation matters
      refine iff_of_true (Relation.intersects_of_unconstrained hname (.inl hrc)) ?_
      obtain ⟨e, he⟩ := hs.exists_matches
      refine ⟨e.1, e.2, ?_, he⟩
      rw [Relation.matchesEvr, hrc]
  | some c =>
    cases hsc : s.constraint with
    | none =>
        refine iff_of_true (Relation.intersects_of_unconstrained hname (.inr hsc)) ?_
        obtain ⟨e, he⟩ := hr.exists_matches
        refine ⟨e.1, e.2, he, ?_⟩
        rw [Relation.matchesEvr, hsc]
    | some d =>
        obtain ⟨op₁, a⟩ := c
        obtain ⟨op₂, b⟩ := d
        unfold Relation.intersects Relation.matchesEvr
        rw [hname, beq_self_eq_true, Bool.true_and, hrc, hsc]
        have hiff := Evr.Released.overlaps_iff_exists ⟨a, hr op₁ a hrc⟩ ⟨b, hs op₂ b hsc⟩ op₁ op₂
        refine hiff.trans ⟨?_, ?_⟩
        · intro h
          obtain ⟨e, h₁, h₂⟩ := h
          exact ⟨e.1, e.2, h₁, h₂⟩
        · intro h
          obtain ⟨e, he, h₁, h₂⟩ := h
          exact ⟨⟨e, he⟩, h₁, h₂⟩

/-- A version, and the first ones that come after it. -/
def afterOne : Relation :=
  (Relation.ofName "lib").constrained .greaterThan
    { epoch := 0, version := "1.0", release := some "1" }

def beforeSnapshot : Relation :=
  (Relation.ofName "lib").constrained .lessThan
    { epoch := 0, version := "1.00", release := some "1^" }

/-- However close the ends of a range are, some version lies between them. -/
theorem intersects_snapshot :
    afterOne.name = beforeSnapshot.name ∧ afterOne.IsExact ∧ beforeSnapshot.IsExact ∧
      ∃ e : Evr, e.release.isSome = true ∧ afterOne.matchesEvr e = true ∧
        beforeSnapshot.matchesEvr e = true := by
  have hafter : afterOne.IsExact := by
    rintro op evr ⟨⟩
    rfl
  have hbefore : beforeSnapshot.IsExact := by
    rintro op evr ⟨⟩
    rfl
  have hoverlap : afterOne.intersects beforeSnapshot = true := by decide +kernel
  exact ⟨rfl, hafter, hbefore,
    (intersects_iff_exists afterOne beforeSnapshot rfl hafter hbefore).mp hoverlap⟩

end DepSolver
