import DepSolver.Proofs.Relation.Layout
import DepSolver.Proofs.Version.Triples

/-!
# Which printed texts are read back

Triples and relations are stored as the texts that `toText` prints, and `parse` reads them again. A
relation is read back if its three parts are told apart and its triple is read back. The first is
so unless the text of the triple begins like an operator, which takes a version that does and no
epoch in front of it.
-/

namespace DepSolver

namespace Relation

variable {r : Relation} {name operator version : List Char}

/-! ## The three parts of a relation -/

/-- A name alone is a relation without a constraint. -/
theorem splitParts?_name (hname : ∀ c ∈ name, isNameChar c = true) (hne : name ≠ []) :
    splitParts? name = some (name, none) :=
  exists_layout_of_splitParts?.mpr ⟨.bare [] name [], List.append_nil name,
    ⟨nofun, ⟨hne, fun c hc => isNameChar_iff.mp (hname c hc)⟩, nofun⟩, rfl⟩

/-- Name, operator and version with blanks between them are told apart, unless the version begins
like an operator. -/
theorem splitParts?_join (hname : ∀ c ∈ name, isNameChar c = true) (hne : name ≠ [])
    (hoperator : ∀ c ∈ operator, isOperatorChar c = true) (hsome : operator ≠ [])
    (hknown : (Operator.spellings.lookup (String.ofList operator)).isNone = false)
    (hversion : ∀ c ∈ version, Text.isBlank c = false) (hnil : version ≠ []) :
    splitParts? (name ++ ' ' :: (operator ++ ' ' :: version)) =
      if version.head?.any isOperatorChar then none
      else some (name, some (operator, version)) := by
  have hname' := Text.frontBare_of_forall fun c hc => isBlank_of_isNameChar (hname c hc)
  have hoperator' := Text.frontBare_of_forall fun c hc => isBlank_of_isOperatorChar (hoperator c hc)
  have hversion' := Text.frontBare_of_forall hversion
  have hbare : ∀ c ∈ version, (!Text.isBlank c) = true := fun c hc => by rw [hversion c hc]; rfl
  obtain ⟨htake₁, hdrop₁⟩ := Text.cut_run (operator ++ ' ' :: version) hname
    (show isNameChar ' ' = false from rfl)
  obtain ⟨htake₂, hdrop₂⟩ := Text.cut_run version hoperator
    (show isOperatorChar ' ' = false from rfl)
  obtain ⟨htake₃, hdrop₃⟩ := Text.cut_all hbare
  have hrest : ¬(operator ++ ' ' :: version).isEmpty = true := by
    rw [List.isEmpty_iff]
    exact fun h => hsome (List.append_eq_nil_iff.mp h).1
  have hname₀ : ¬name.isEmpty = true := by
    rw [List.isEmpty_iff]
    exact hne
  have hversion₀ : version.isEmpty = false := by
    rw [Bool.eq_false_iff, ne_eq, List.isEmpty_iff]
    exact hnil
  unfold splitParts?
  dsimp only
  rw [Text.trimLeft_eq_self (hname'.append hne), htake₁, hdrop₁,
    Text.trimLeft_blank (hoperator'.append hsome), if_neg hname₀, if_neg hrest, htake₂, hdrop₂,
    Text.trimLeft_blank hversion', htake₃, hdrop₃, hknown, hversion₀]
  simp

/-! ## Which relations are read back -/

/-- What is known of a relation that was read from some text. -/
structure WasRead (r : Relation) : Prop where
  name : r.name.toList ≠ [] ∧ ∀ c ∈ r.name.toList, isNameChar c = true
  constraint : ∀ op e, r.constraint = some (op, e) →
    e.WasRead ∧ ∀ c ∈ e.versionText, Text.isBlank c = false

/-- **Whether the text of a relation tells its parts apart**: its triple is plain and, where no epoch
stands in front of it, does not begin like an operator. -/
def IsPlain (r : Relation) : Prop :=
  ∀ op e, r.constraint = some (op, e) →
    e.IsPlain ∧ (e.epoch = 0 → e.version.toList.head?.any isOperatorChar = false)

theorem splitParts?_eq_some {s : List Char} {parts : Option (List Char × List Char)}
    (h : splitParts? s = some (name, parts)) :
    (name ≠ [] ∧ ∀ c ∈ name, isNameChar c = true) ∧
      ∀ operator version, parts = some (operator, version) →
        ∀ c ∈ version, Text.isBlank c = false := by
  obtain ⟨l, -, hproper, hparts⟩ := exists_layout_of_splitParts?.mp h
  cases l with
  | bare front x back =>
      obtain ⟨rfl, rfl⟩ := Prod.mk.inj hparts
      obtain ⟨-, ⟨hne, hname⟩, -⟩ := hproper
      exact ⟨⟨hne, fun c hc => isNameChar_iff.mpr (hname c hc)⟩, fun _ _ hsome =>
        absurd hsome (by simp)⟩
  | ranged front x gap o gap' v back =>
      obtain ⟨rfl, rfl⟩ := Prod.mk.inj hparts
      obtain ⟨-, ⟨hne, hname⟩, -, -, -, ⟨-, hversion⟩, -⟩ := hproper
      refine ⟨⟨hne, fun c hc => isNameChar_iff.mpr (hname c hc)⟩, fun operator version hsome => ?_⟩
      obtain ⟨-, rfl⟩ := Prod.mk.inj (Option.some.inj hsome)
      exact hversion

/-- **Every relation that is read** has a name of its own, and no blank in its version. -/
theorem wasRead_of_parse {text : String} (h : parse text = .ok r) : r.WasRead := by
  unfold parse at h
  cases hparts : splitParts? text.toList with
  | none =>
      rw [hparts] at h
      exact absurd h (by simp)
  | some p =>
      obtain ⟨name, parts⟩ := p
      obtain ⟨hname, hversion⟩ := splitParts?_eq_some hparts
      rw [hparts] at h
      have hname' : (String.ofList name).toList ≠ [] ∧
          ∀ c ∈ (String.ofList name).toList, isNameChar c = true := by
        rw [String.toList_ofList]
        exact hname
      cases parts with
      | none =>
          obtain rfl := Except.ok.inj h
          exact ⟨hname', fun _ _ hsome => absurd hsome (by simp [ofName])⟩
      | some q =>
          obtain ⟨operator, version⟩ := q
          dsimp only at h
          cases hop : Operator.parse (String.ofList operator) with
          | error e =>
              rw [hop] at h
              exact absurd h (by simp)
          | ok op =>
              cases hevr : Evr.parse (String.ofList version) with
              | error e =>
                  rw [hop, hevr] at h
                  exact absurd h (by simp)
              | ok evr =>
                  rw [hop, hevr] at h
                  obtain rfl := Except.ok.inj h
                  refine ⟨hname', fun op' e hsome => ?_⟩
                  obtain ⟨-, rfl⟩ := Prod.mk.inj (Option.some.inj hsome)
                  refine ⟨Evr.wasRead_of_parse hevr, fun c hc => ?_⟩
                  have hmem := Evr.mem_of_mem_versionText hevr hc
                  rw [String.toList_ofList] at hmem
                  exact hversion operator version rfl c hmem

theorem parse_operator (op : Operator) : Operator.parse op.toText = .ok op := by
  cases op <;> rfl

/-- Every operator is spelled with operator characters, in a way that is known. -/
theorem spelled_operator (op : Operator) : op.toText.toList ≠ [] ∧
    (∀ c ∈ op.toText.toList, isOperatorChar c = true) ∧
      (Operator.spellings.lookup op.toText).isNone = false := by
  have hchars : op.toText.toList.all isOperatorChar = true := by cases op <;> rfl
  have hknown : (Operator.spellings.lookup op.toText).isNone = false := by cases op <;> rfl
  have hne : op.toText.toList ≠ [] := by cases op <;> decide
  exact ⟨hne, List.all_eq_true.mp hchars, hknown⟩

theorem toList_toText_of_constraint {op : Operator} {e : Evr} (h : r.constraint = some (op, e)) :
    r.toText.toList =
      r.name.toList ++ ' ' :: (op.toText.toList ++ ' ' :: e.toText.toList) := by
  unfold toText
  rw [h]
  simp only [String.toList_append, List.append_assoc]
  rfl

/-- What is printed of a triple begins like an operator if its version does and no epoch stands in
front. -/
theorem head?_toText {e : Evr} (hread : e.WasRead) :
    e.toText.toList.head?.any isOperatorChar = false ↔
      (e.epoch = 0 → e.version.toList.head?.any isOperatorChar = false) := by
  rw [Evr.toList_toText]
  by_cases hepoch : e.epoch = 0
  · have hnone : Evr.epochText e.epoch = [] := if_pos hepoch
    obtain ⟨c, rest, hversion⟩ := List.exists_cons_of_ne_nil hread.version.ne_nil
    unfold Evr.versionText
    rw [hnone, hversion, List.nil_append, List.cons_append]
    exact ⟨fun h _ => h, fun h => h hepoch⟩
  · have hsome : Evr.epochText e.epoch = Nat.toDigits 10 e.epoch.toNat ++ [':'] := if_neg hepoch
    refine iff_of_true ?_ fun hzero => absurd hzero hepoch
    obtain ⟨c, rest, hdigits⟩ := List.exists_cons_of_ne_nil
      (Nat.toDigits_ne_nil (n := e.epoch.toNat) (b := 10))
    have hc : c.isDigit = true := Text.isDigit_of_mem_toDigits (n := e.epoch.toNat) (by
      rw [hdigits]
      exact List.mem_cons_self ..)
    rw [hsome, hdigits]
    show isOperatorChar c = false
    unfold isOperatorChar
    rw [Bool.or_eq_false_iff, Bool.or_eq_false_iff]
    refine ⟨⟨?_, ?_⟩, ?_⟩ <;>
      exact beq_eq_false_iff_ne.mpr (Text.ne_of_isDigit hc rfl).symm

/-- Reading what is printed of a relation comes to reading what is printed of its triple, unless
that begins like an operator. -/
theorem parse_toText_of_constraint {op : Operator} {e : Evr} (hread : r.WasRead)
    (h : r.constraint = some (op, e)) :
    parse r.toText =
      if e.toText.toList.head?.any isOperatorChar then .error (.invalidRelation r.toText)
      else
        match Evr.parse e.toText with
        | .ok evr => .ok ((ofName r.name).constrained op evr)
        | .error err => .error err := by
  obtain ⟨hread', hbare⟩ := hread.constraint op e h
  obtain ⟨hsome, hoperator, hknown⟩ := spelled_operator op
  have hbare' : ∀ c ∈ e.toText.toList, Text.isBlank c = false := by
    intro c hc
    rw [Evr.toList_toText, List.mem_append] at hc
    rcases hc with hc | hc
    · exact Evr.isBlank_of_mem_epochText hc
    · exact hbare c hc
  have hnil : e.toText.toList ≠ [] := by
    rw [Evr.toList_toText]
    exact fun hnil => Evr.versionText_ne_nil hread' (List.append_eq_nil_iff.mp hnil).2
  rw [← String.ofList_toList (s := op.toText)] at hknown
  unfold parse
  rw [toList_toText_of_constraint h,
    splitParts?_join hread.name.2 hread.name.1 hoperator hsome hknown hbare' hnil]
  cases e.toText.toList.head?.any isOperatorChar with
  | true => rfl
  | false =>
      rw [if_neg Bool.false_ne_true, if_neg Bool.false_ne_true]
      dsimp only
      rw [String.ofList_toList, String.ofList_toList, String.ofList_toList, parse_operator]
      dsimp only
      cases Evr.parse e.toText with
      | ok evr => rfl
      | error err => rfl

/-- **A relation that was read is read back from its text exactly if it is plain.** -/
theorem parse_toText_eq_iff {text : String} (h : parse text = .ok r) :
    parse r.toText = .ok r ↔ r.IsPlain := by
  have hread := wasRead_of_parse h
  cases hconstraint : r.constraint with
  | none =>
      have hplain : r.IsPlain := fun op e hsome => by
        rw [hconstraint] at hsome
        exact absurd hsome (by simp)
      refine iff_of_true ?_ hplain
      have htext : r.toText = r.name := by
        unfold toText
        rw [hconstraint]
      unfold parse
      rw [htext, splitParts?_name hread.name.2 hread.name.1]
      dsimp only
      rw [String.ofList_toList]
      exact congrArg Except.ok (by rw [ofName, ← hconstraint])
  | some constraint =>
      obtain ⟨op, e⟩ := constraint
      obtain ⟨hread', -⟩ := hread.constraint op e hconstraint
      have hsame : r = (ofName r.name).constrained op e := by
        rw [ofName, constrained, ← hconstraint]
      have hplain : r.IsPlain ↔
          e.IsPlain ∧ e.toText.toList.head?.any isOperatorChar = false := by
        rw [head?_toText hread']
        refine ⟨fun h => h op e hconstraint, fun h op' e' hsome => ?_⟩
        rw [hconstraint] at hsome
        obtain ⟨-, rfl⟩ := Prod.mk.inj (Option.some.inj hsome)
        exact h
      rw [hplain, parse_toText_of_constraint hread hconstraint]
      refine ⟨fun hparse => ?_, fun h => ?_⟩
      · split at hparse
        · exact absurd hparse (by simp)
        · rename_i hhead
          refine ⟨Evr.isPlain_of_parse_toText ?_, Bool.not_eq_true _ ▸ hhead⟩
          cases hevr : Evr.parse e.toText with
          | error err =>
              rw [hevr] at hparse
              exact absurd hparse (by simp)
          | ok evr =>
              rw [hevr] at hparse
              have hevr' := congrArg Relation.constraint ((Except.ok.inj hparse).trans hsame)
              exact congrArg Except.ok (Prod.mk.inj (Option.some.inj hevr')).2
      · rw [h.2, Evr.parse_toText_of_isPlain hread' h.1]
        exact congrArg Except.ok hsame.symm

end Relation

/--
**Which texts are read back.**

Of a triple that was read, the printed text is read as the same triple exactly if the triple is plain:
without an epoch, no colon may stand in it and no blank before it; without a release, no hyphen may
stand in it and no blank behind it. Of a relation, the printed text is read as the same relation
exactly if its triple is plain and, without an epoch, does not begin like an operator.
-/
theorem parse_toText_iff_isPlain (text : String) :
    (∀ e, Evr.parse text = .ok e → (Evr.parse e.toText = .ok e ↔ e.IsPlain)) ∧
    ∀ r, Relation.parse text = .ok r → (Relation.parse r.toText = .ok r ↔ r.IsPlain) :=
  ⟨fun _ h => Evr.parse_toText_eq_iff h, fun _ h => Relation.parse_toText_eq_iff h⟩

/-- An epoch of 0 that is stated, before a version that holds a colon. -/
def hiddenEpoch : Evr := { epoch := 0, version := "a:2", release := some "1" }

/-- A version that holds a hyphen, before a release that is stated and empty. -/
def hiddenRelease : Evr := { epoch := 0, version := "1-rc", release := none }

/-- The epoch keeps the colon from being taken for another, and the release the hyphen. -/
def nothingHidden : Evr := { epoch := 1, version := "a:1-rc", release := some "2" }

/-- What an epoch of 0 or an empty release hid in the text that was read is not hidden in the text
that is printed. -/
theorem parse_toText_hidden :
    (Evr.parse "0:a:2-1" = .ok hiddenEpoch ∧ Evr.parse hiddenEpoch.toText ≠ .ok hiddenEpoch) ∧
    (Relation.parse "lib >= 1-rc-" =
        .ok ((Relation.ofName "lib").constrained .greaterThanOrEqual hiddenRelease) ∧
      Relation.parse ((Relation.ofName "lib").constrained .greaterThanOrEqual hiddenRelease).toText ≠
        .ok ((Relation.ofName "lib").constrained .greaterThanOrEqual hiddenRelease)) ∧
    (Evr.parse " 01:a:1-rc-2" = .ok nothingHidden ∧
      Evr.parse nothingHidden.toText = .ok nothingHidden) := by
  have hepoch : Evr.parse "0:a:2-1" = .ok hiddenEpoch := by rfl
  have hrelease : Relation.parse "lib >= 1-rc-" =
      .ok ((Relation.ofName "lib").constrained .greaterThanOrEqual hiddenRelease) := by rfl
  have hplain : Evr.parse " 01:a:1-rc-2" = .ok nothingHidden := by rfl
  refine ⟨⟨hepoch, ?_⟩, ⟨hrelease, ?_⟩, ⟨hplain, ?_⟩⟩
  · intro hback
    exact absurd (((parse_toText_iff_isPlain _).1 _ hepoch).mp hback) (by decide +kernel)
  · intro hback
    have hplain := ((parse_toText_iff_isPlain _).2 _ hrelease).mp hback
    exact absurd (hplain _ _ rfl).1 (by decide +kernel)
  · exact ((parse_toText_iff_isPlain _).1 _ hplain).mpr (by decide +kernel)

end DepSolver
