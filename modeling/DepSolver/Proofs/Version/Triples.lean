import DepSolver.Evr
import DepSolver.Proofs.Text.Cut

/-!
# How triples are spelled

The text of a triple is an epoch with a colon behind it, a version, and a release with a hyphen before
it. Printing leaves out what reading would supply: an epoch of 0 and a missing release. That is safe
only if nothing of what is left looks like the part that was left out. A version that holds a colon
is taken for an epoch and a version once the epoch before it is gone; one that holds a hyphen is
taken for a version and a release; and a blank at an end that nothing covers any more is cut off.

`Evr.IsPlain` names these cases. A triple that was read from some text is read back from the text
printed for it exactly if it is plain.
-/

namespace DepSolver

namespace Evr

variable {e : Evr} {s rest : List Char} {epoch : UInt64} {version : String}
  {release : Option String}

/-! ## How the text of a triple is made up -/

/-- How a text gives an epoch, and what is left of it. -/
inductive SpellsEpoch : List Char → UInt64 → List Char → Prop where
  | absent {rest : List Char} : ':' ∉ rest → SpellsEpoch rest 0 rest
  | stated {before : List Char} {epoch : UInt64} (rest : List Char) : ':' ∉ before →
      readEpoch? before = some epoch → SpellsEpoch (before ++ ':' :: rest) epoch rest

/-- How a text gives a version and a release. -/
inductive SpellsVersion : List Char → String → Option String → Prop where
  | alone {version : String} : '-' ∉ version.toList → SpellsVersion version.toList version none
  /-- A release that is empty counts as missing. -/
  | dropped (version : String) : SpellsVersion (version.toList ++ ['-']) version none
  | full (version : String) {release : String} : release.toList ≠ [] → '-' ∉ release.toList →
      SpellsVersion (version.toList ++ '-' :: release.toList) version (some release)

/-- Whether a version holds a letter or a digit. -/
def NamesVersion (version : String) : Prop := version.toList.any Char.isAlphanum = true

theorem NamesVersion.ne_nil (h : NamesVersion version) : version.toList ≠ [] := by
  intro hnil
  unfold NamesVersion at h
  rw [hnil] at h
  exact absurd h (by simp)

/-- What is read as a version and a release, given the two parts of a text. -/
theorem readVersion_eq {parts : List Char × List Char} (text : String) (epoch : UInt64)
    (hparts : (Text.splitLast '-' rest).getD (rest, []) = parts)
    (hnames : NamesVersion (String.ofList parts.1)) :
    readVersion text epoch rest = .ok
      { epoch, version := String.ofList parts.1
        release := if parts.2.isEmpty then none else some (String.ofList parts.2) } := by
  have hne : parts.1 ≠ [] := by
    have := hnames.ne_nil
    rwa [String.toList_ofList] at this
  unfold NamesVersion at hnames
  rw [String.toList_ofList] at hnames
  unfold readVersion
  dsimp only
  rw [hparts, if_neg (by rw [List.isEmpty_iff]; exact hne), hnames]
  rfl

/-- A rest spells the parts that the last hyphen cuts it into. -/
theorem spellsVersion_split (rest : List Char) :
    let parts := (Text.splitLast '-' rest).getD (rest, [])
    SpellsVersion rest (String.ofList parts.1)
      (if parts.2.isEmpty then none else some (String.ofList parts.2)) := by
  cases hsplit : Text.splitLast '-' rest with
  | none =>
      -- without a hyphen all of it is the version
      have halone : SpellsVersion (String.ofList rest).toList (String.ofList rest) none :=
        .alone (by rw [String.toList_ofList]; exact Text.splitLast_eq_none.mp hsplit)
      rwa [String.toList_ofList] at halone
  | some parts =>
      obtain ⟨before, after⟩ := parts
      obtain ⟨rfl, hafter⟩ := Text.splitLast_eq_some hsplit
      show SpellsVersion _ (String.ofList before)
        (if after.isEmpty then none else some (String.ofList after))
      split
      · rename_i hnil
        rw [List.isEmpty_iff.mp hnil]
        have hdropped := SpellsVersion.dropped (String.ofList before)
        rwa [String.toList_ofList] at hdropped
      · rename_i hne
        rw [List.isEmpty_iff] at hne
        have hnil' : (String.ofList after).toList ≠ [] := by
          rw [String.toList_ofList]
          exact hne
        have hnone : '-' ∉ (String.ofList after).toList := by
          rw [String.toList_ofList]
          exact hafter
        have hfull := SpellsVersion.full (String.ofList before) hnil' hnone
        rwa [String.toList_ofList, String.toList_ofList] at hfull

/-- What spells a version and a release is cut into them again. -/
theorem readVersion_of_spells (text : String) (hspells : SpellsVersion rest version release)
    (hnames : NamesVersion version) :
    readVersion text epoch rest = .ok { epoch, version, release } := by
  have hversion : NamesVersion (String.ofList version.toList) := by
    rw [String.ofList_toList]
    exact hnames
  cases hspells with
  | alone hnone =>
      have hsplit : (Text.splitLast '-' version.toList).getD (version.toList, []) =
          (version.toList, []) := by
        rw [Text.splitLast_eq_none.mpr hnone]
        rfl
      rw [readVersion_eq text epoch hsplit hversion, String.ofList_toList]
      rfl
  | dropped =>
      have hsplit : (Text.splitLast '-' (version.toList ++ ['-'])).getD
          (version.toList ++ ['-'], []) = (version.toList, []) := by
        rw [Text.splitLast_append version.toList List.not_mem_nil]
        rfl
      rw [readVersion_eq text epoch hsplit hversion, String.ofList_toList]
      rfl
  | @full _ release hne hnone =>
      have hsplit : (Text.splitLast '-' (version.toList ++ '-' :: release.toList)).getD
          (version.toList ++ '-' :: release.toList, []) = (version.toList, release.toList) := by
        rw [Text.splitLast_append version.toList hnone]
        rfl
      rw [readVersion_eq text epoch hsplit hversion, String.ofList_toList,
        if_neg (by rw [List.isEmpty_iff]; exact hne), String.ofList_toList]

theorem readVersion_eq_ok {text : String} : readVersion text epoch rest = .ok e ↔
    e.epoch = epoch ∧ SpellsVersion rest e.version e.release ∧ NamesVersion e.version := by
  refine ⟨fun h => ?_, fun h => ?_⟩
  · unfold readVersion at h
    dsimp only at h
    split at h
    · exact absurd h (by simp)
    split at h
    · exact absurd h (by simp)
    rename_i hnames
    rw [Bool.not_eq_true', Bool.not_eq_false] at hnames
    have he := (Except.ok.inj h).symm
    have hnames' : NamesVersion e.version := by
      unfold NamesVersion
      rw [he, String.toList_ofList]
      exact hnames
    refine ⟨by rw [he], ?_, hnames'⟩
    rw [he]
    exact spellsVersion_split rest
  · obtain ⟨hepoch, hspells, hnames⟩ := h
    rw [← hepoch]
    exact readVersion_of_spells text hspells hnames

/-- **What is read as a triple**: a text that, without the blanks around it, spells an epoch and then
a version and a release. -/
theorem parse_eq_ok {text : String} : parse text = .ok e ↔ ∃ rest,
    SpellsEpoch (Text.trim text.toList) e.epoch rest ∧ SpellsVersion rest e.version e.release ∧
      NamesVersion e.version := by
  unfold parse
  dsimp only
  generalize Text.trim text.toList = s
  refine ⟨fun h => ?_, fun h => ?_⟩
  · cases hsplit : Text.splitFirst ':' s with
    | none =>
        rw [hsplit] at h
        obtain ⟨hepoch, hspells⟩ := readVersion_eq_ok.mp h
        rw [hepoch]
        exact ⟨s, .absent (Text.splitFirst_eq_none.mp hsplit), hspells⟩
    | some parts =>
        obtain ⟨before, after⟩ := parts
        rw [hsplit] at h
        dsimp only at h
        obtain ⟨rfl, hbefore⟩ := Text.splitFirst_eq_some hsplit
        cases hread : readEpoch? before with
        | none =>
            rw [hread] at h
            exact absurd h (by simp)
        | some epoch =>
            rw [hread] at h
            obtain ⟨hepoch, hspells⟩ := readVersion_eq_ok.mp h
            rw [hepoch]
            exact ⟨after, .stated after hbefore hread, hspells⟩
  · obtain ⟨rest, hepoch, hspells⟩ := h
    generalize hepoch' : e.epoch = epoch at hepoch
    cases hepoch with
    | absent hcolon =>
        rw [Text.splitFirst_eq_none.mpr hcolon]
        exact readVersion_eq_ok.mpr ⟨hepoch', hspells⟩
    | @stated before _ _ hcolon hread =>
        rw [Text.splitFirst_append hcolon]
        dsimp only
        rw [hread]
        exact readVersion_eq_ok.mpr ⟨hepoch', hspells⟩

/-! ## How a triple is printed -/

/-- What is printed of a triple after its epoch. -/
def versionText (e : Evr) : List Char :=
  e.version.toList ++ (match e.release with
    | some r => '-' :: r.toList
    | none => [])

/-- What is printed of an epoch. -/
def epochText (epoch : UInt64) : List Char :=
  if epoch = 0 then [] else Nat.toDigits 10 epoch.toNat ++ [':']

theorem toList_toText (e : Evr) : e.toText.toList = epochText e.epoch ++ e.versionText := by
  unfold toText epochText versionText
  rw [String.toList_append, String.toList_append, List.append_assoc]
  congr 1
  · split
    · rfl
    · rw [String.toList_append, Nat.toString_eq_repr, Nat.toList_repr]
      rfl
  · cases e.release with
    | none => rfl
    | some r => exact congrArg _ String.toList_append

/-- An epoch is read back from what is printed of it. -/
theorem readEpoch?_toDigits (epoch : UInt64) :
    readEpoch? (Nat.toDigits 10 epoch.toNat) = some epoch := by
  have hne : Nat.toDigits 10 epoch.toNat ≠ [] := Nat.toDigits_ne_nil
  unfold readEpoch?
  rw [if_neg (by rw [List.isEmpty_iff]; exact hne), Text.readNumeral?_toDigits epoch.toNat_lt,
    Option.map_some, UInt64.ofNat_toNat]

theorem isBlank_of_mem_epochText {c : Char} (h : c ∈ epochText epoch) :
    Text.isBlank c = false := by
  unfold epochText at h
  split at h
  · exact absurd h (by simp)
  · rcases List.mem_append.mp h with h | h
    · exact Text.isBlank_of_isDigit (Text.isDigit_of_mem_toDigits h)
    · rw [List.mem_singleton.mp h]
      rfl

/-! ## Which triples are read back -/

/-- What is known of a triple that was read from some text. -/
structure WasRead (e : Evr) : Prop where
  version : NamesVersion e.version
  release : ∀ r, e.release = some r → r.toList ≠ [] ∧ '-' ∉ r.toList ∧ Text.BackBare r.toList

/-- **Whether nothing of a triple looks like a part that is not printed.** -/
structure IsPlain (e : Evr) : Prop where
  /-- Where no epoch is printed, a colon would be taken for the end of one. -/
  colon : e.epoch = 0 → ':' ∉ e.versionText
  /-- A blank in front would be cut off. -/
  front : e.epoch = 0 → Text.FrontBare e.version.toList
  /-- Where no release is printed, a hyphen would be taken for the beginning of one. -/
  hyphen : e.release = none → '-' ∉ e.version.toList
  /-- A blank at the end would be cut off. -/
  back : e.release = none → Text.BackBare e.version.toList

theorem isPlain_iff : e.IsPlain ↔
    (e.epoch = 0 → ':' ∉ e.versionText) ∧ (e.epoch = 0 → Text.FrontBare e.version.toList) ∧
      (e.release = none → '-' ∉ e.version.toList) ∧
        (e.release = none → Text.BackBare e.version.toList) :=
  ⟨fun h => ⟨h.colon, h.front, h.hyphen, h.back⟩, fun ⟨h₁, h₂, h₃, h₄⟩ => ⟨h₁, h₂, h₃, h₄⟩⟩

instance (e : Evr) : Decidable e.IsPlain := decidable_of_iff _ isPlain_iff.symm

theorem SpellsVersion.backBare (h : SpellsVersion rest version release)
    (hback : Text.BackBare rest) : ∀ r, release = some r →
      r.toList ≠ [] ∧ '-' ∉ r.toList ∧ Text.BackBare r.toList := by
  intro r hr
  cases h with
  | alone => exact absurd hr (by simp)
  | dropped => exact absurd hr (by simp)
  | @full _ release hne hnone =>
      obtain rfl := Option.some.inj hr
      have hcut : Text.BackBare (['-'] ++ release.toList) := hback.of_append (by simp)
      exact ⟨hne, hnone, hcut.of_append hne⟩

theorem SpellsEpoch.suffix (h : SpellsEpoch s epoch rest) : rest <:+ s := by
  cases h with
  | absent => exact List.suffix_refl _
  | @stated before _ => exact ⟨before ++ [':'], by simp⟩

theorem SpellsVersion.ne_nil (h : SpellsVersion rest version release)
    (hnames : NamesVersion version) : rest ≠ [] := by
  intro hnil
  cases h with
  | alone => exact hnames.ne_nil hnil
  | dropped => exact absurd hnil (by simp)
  | full => exact absurd hnil (by simp)

/-- **Every triple that is read** has a version, and a release that is its own. -/
theorem wasRead_of_parse {text : String} (h : parse text = .ok e) : e.WasRead := by
  obtain ⟨rest, hepoch, hspells, hnames⟩ := parse_eq_ok.mp h
  refine ⟨hnames, hspells.backBare ?_⟩
  obtain ⟨before, hbefore⟩ := hepoch.suffix
  have hback : Text.BackBare (before ++ rest) := by
    rw [hbefore]
    exact Text.backBare_trimRight _
  exact hback.of_append (hspells.ne_nil hnames)

/-- What is printed of a triple after the epoch stands in the text that it was read from. -/
theorem mem_of_mem_versionText {text : String} (h : parse text = .ok e) {c : Char}
    (hc : c ∈ e.versionText) : c ∈ text.toList := by
  obtain ⟨rest, hepoch, hspells, -⟩ := parse_eq_ok.mp h
  have hrest : c ∈ rest := by
    obtain ⟨epoch, version, release⟩ := e
    dsimp only [versionText] at hspells hc
    cases hspells with
    | alone => rwa [List.append_nil] at hc
    | dropped =>
        rw [List.append_nil] at hc
        exact List.mem_append_left _ hc
    | full => exact hc
  exact Text.mem_of_mem_trim (hepoch.suffix.subset hrest)

/-- What is printed after the epoch spells the version and the release. -/
theorem spellsVersion_versionText (hread : e.WasRead) (hplain : e.IsPlain) :
    SpellsVersion e.versionText e.version e.release := by
  unfold versionText
  cases hrelease : e.release with
  | none =>
      rw [List.append_nil]
      exact .alone (hplain.hyphen hrelease)
  | some r =>
      obtain ⟨hne, hnone, -⟩ := hread.release r hrelease
      exact .full e.version hne hnone

theorem backBare_versionText (hread : e.WasRead) (hplain : e.IsPlain) :
    Text.BackBare e.versionText := by
  unfold versionText
  cases hrelease : e.release with
  | none =>
      rw [List.append_nil]
      exact hplain.back hrelease
  | some r =>
      obtain ⟨hne, -, hback⟩ := hread.release r hrelease
      have hlast : Text.BackBare (['-'] ++ r.toList) := hback.append hne
      exact hlast.append (by simp)

theorem versionText_ne_nil (hread : e.WasRead) : e.versionText ≠ [] := fun hnil =>
  hread.version.ne_nil (List.append_eq_nil_iff.mp hnil).1

/-- A plain triple is read back. -/
theorem parse_toText_of_isPlain (hread : e.WasRead) (hplain : e.IsPlain) :
    parse e.toText = .ok e := by
  refine parse_eq_ok.mpr ⟨e.versionText, ?_, spellsVersion_versionText hread hplain, hread.version⟩
  have hback : Text.BackBare (epochText e.epoch ++ e.versionText) :=
    (backBare_versionText hread hplain).append (versionText_ne_nil hread)
  rw [toList_toText]
  by_cases hepoch : e.epoch = 0
  · have hnone : epochText e.epoch = [] := if_pos hepoch
    rw [hnone, List.nil_append] at hback ⊢
    have hfront : Text.FrontBare e.versionText :=
      (hplain.front hepoch).append hread.version.ne_nil
    rw [Text.trim_eq_self hfront hback, hepoch]
    exact .absent (hplain.colon hepoch)
  · have hsome : epochText e.epoch = Nat.toDigits 10 e.epoch.toNat ++ [':'] := if_neg hepoch
    have hfront : Text.FrontBare (epochText e.epoch ++ e.versionText) := by
      rw [hsome, List.append_assoc]
      exact (Text.frontBare_toDigits _).append Nat.toDigits_ne_nil
    rw [Text.trim_eq_self hfront hback, hsome, List.append_assoc]
    exact .stated _ (Text.colon_notMem_toDigits _) (readEpoch?_toDigits _)

/-! ## Which are not -/

/-- A text that spells a version and a release is no shorter than what is printed of them, and if it
is no longer either, it is just that. -/
theorem SpellsVersion.length_le (h : SpellsVersion rest e.version e.release) :
    e.versionText.length ≤ rest.length ∧
      (rest.length ≤ e.versionText.length →
        rest = e.versionText ∧ (e.release = none → '-' ∉ e.version.toList)) := by
  obtain ⟨epoch, version, release⟩ := e
  dsimp only [versionText] at h ⊢
  cases h with
  | alone hnone =>
      rw [List.append_nil]
      exact ⟨Nat.le_refl _, fun _ => ⟨rfl, fun _ => hnone⟩⟩
  | dropped =>
      rw [List.append_nil, List.length_append]
      exact ⟨Nat.le_add_right _ _, fun hle => absurd hle (by simp)⟩
  | full => exact ⟨Nat.le_refl _, fun _ => ⟨rfl, fun hnone => absurd hnone (by simp)⟩⟩

/-- What is left of a printed text after its epoch is no longer than what was printed there. -/
theorem length_le_of_spellsEpoch
    (h : SpellsEpoch (Text.trim e.toText.toList) e.epoch rest) :
    rest.length ≤ e.versionText.length := by
  rw [toList_toText] at h
  by_cases hepoch : e.epoch = 0
  · have hnone : epochText e.epoch = [] := if_pos hepoch
    rw [hnone, List.nil_append] at h
    exact Nat.le_trans h.suffix.length_le (Text.length_trim_le _)
  · -- the colon after the epoch is the first one
    have hsome : epochText e.epoch = Nat.toDigits 10 e.epoch.toNat ++ [':'] := if_neg hepoch
    rw [hsome, List.append_assoc] at h
    have hprefix := Text.trim_prefix ((Text.frontBare_toDigits e.epoch.toNat).append
      (t := [':'] ++ e.versionText) Nat.toDigits_ne_nil)
    generalize Text.trim (Nat.toDigits 10 e.epoch.toNat ++ ([':'] ++ e.versionText)) = s at h hprefix
    generalize e.epoch = epoch at h hepoch hprefix
    cases h with
    | absent => exact absurd rfl hepoch
    | @stated before _ _ hcolon =>
        obtain ⟨after, hafter⟩ := hprefix
        have hfirst := congrArg (Text.splitFirst ':') hafter
        rw [List.append_assoc, List.cons_append, Text.splitFirst_append hcolon, List.cons_append,
          List.nil_append, Text.splitFirst_append (Text.colon_notMem_toDigits _)] at hfirst
        have hrest := (Prod.mk.inj (Option.some.inj hfirst)).2
        rw [← hrest, List.length_append]
        exact Nat.le_add_right _ _

/-- A triple that is read back is plain. -/
theorem isPlain_of_parse_toText (h : parse e.toText = .ok e) : e.IsPlain := by
  obtain ⟨rest, hepoch, hspells, hnames⟩ := parse_eq_ok.mp h
  obtain ⟨hle, hsame⟩ := hspells.length_le
  obtain ⟨rfl, hhyphen⟩ := hsame (length_le_of_spellsEpoch hepoch)
  have hwhole : e.epoch = 0 → ':' ∉ e.versionText ∧ Text.FrontBare e.version.toList := by
    intro hzero
    have hlength : (Text.trim e.toText.toList).length ≤ e.versionText.length := by
      have htrim := Text.length_trim_le e.toText.toList
      have hnone : epochText e.epoch = [] := if_pos hzero
      rw [toList_toText, hnone, List.nil_append] at htrim ⊢
      exact htrim
    refine ⟨?_, ?_⟩
    · generalize Text.trim e.toText.toList = s at hepoch hlength
      generalize e.epoch = epoch at hepoch
      cases hepoch with
      | absent hcolon => exact hcolon
      | stated =>
          rw [List.length_append, List.length_cons] at hlength
          omega
    · have hall := Nat.le_trans hepoch.suffix.length_le (Nat.le_refl _)
      have hnone : epochText e.epoch = [] := if_pos hzero
      rw [toList_toText, hnone, List.nil_append] at hall
      exact (Text.frontBare_of_length_trim hall).of_append hnames.ne_nil
  refine ⟨fun hzero => (hwhole hzero).1, fun hzero => (hwhole hzero).2, hhyphen, fun hnone => ?_⟩
  obtain ⟨before, hbefore⟩ := hepoch.suffix
  have hback : Text.BackBare (before ++ e.versionText) := by
    rw [hbefore]
    exact Text.backBare_trimRight _
  have hversion : e.versionText = e.version.toList := by
    unfold versionText
    rw [hnone]
    exact List.append_nil _
  rw [hversion] at hback
  exact hback.of_append hnames.ne_nil

/-- **A triple that was read is read back from its text exactly if it is plain.** -/
theorem parse_toText_eq_iff {text : String} (h : parse text = .ok e) :
    parse e.toText = .ok e ↔ e.IsPlain :=
  ⟨isPlain_of_parse_toText, parse_toText_of_isPlain (wasRead_of_parse h)⟩

end Evr

end DepSolver
