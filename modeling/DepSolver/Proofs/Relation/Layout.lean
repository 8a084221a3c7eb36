import DepSolver.Proofs.Text.Cut
import DepSolver.Relation

/-!
# How relations are written

A relation is written as a name and, possibly, an operator and the text of a version, with as much
white space around each of the three as one likes, none included. What keeps them apart is what they
are made of: a name holds no operator characters, an operator holds nothing else, and the text of a
version does not begin with one, although it may hold some further on.

A `Layout` is such a writing, gaps included. `Layout.text` puts it together and `Layout.scan` takes
a text apart, run by run. Scanning undoes putting together, so a text has one layout at most; and
the reader accepts what scans as a layout whose operator and version can be read.
-/

namespace DepSolver

theorem Operator.lookup_eq_some {text : String} {op : Operator} :
    spellings.lookup text = some op ↔ (text, op) ∈ spellings := by
  refine ⟨fun h => ?_, fun h => ?_⟩
  · obtain ⟨before, after, hsplit, -⟩ := List.lookup_eq_some_iff.mp h
    rw [hsplit]
    exact List.mem_append_right _ (List.mem_cons_self ..)
  · -- no text is the spelling of two operators
    simp only [spellings, List.mem_cons, Prod.mk.injEq, List.not_mem_nil, or_false] at h
    rcases h with ⟨rfl, rfl⟩ | ⟨rfl, rfl⟩ | ⟨rfl, rfl⟩ | ⟨rfl, rfl⟩ | ⟨rfl, rfl⟩ | ⟨rfl, rfl⟩ |
      ⟨rfl, rfl⟩ | ⟨rfl, rfl⟩ <;> rfl

theorem Operator.parse_eq_ok {text : String} {op : Operator} :
    parse text = .ok op ↔ (text, op) ∈ spellings := by
  rw [← lookup_eq_some]
  unfold parse
  cases spellings.lookup text <;> simp

namespace Relation

/-! ## What the parts are made of -/

/-- White space, or nothing. -/
def IsGap (s : List Char) : Prop := ∀ c ∈ s, Text.isBlank c = true

instance (s : List Char) : Decidable (IsGap s) := decidable_of_iff _ List.all_eq_true

/-- The name of a relation. -/
def IsName (s : List Char) : Prop :=
  s ≠ [] ∧ ∀ c ∈ s, Text.isBlank c = false ∧ c ∉ ['<', '>', '=']

/-- One of the spellings of an operator. -/
def IsOperator (s : List Char) : Prop := ∃ op, (String.ofList s, op) ∈ Operator.spellings

/-- What may stand for a version, whether or not it can be read as one. -/
def IsVersion (s : List Char) : Prop :=
  (∃ c rest, s = c :: rest ∧ c ∉ ['<', '>', '=']) ∧ ∀ c ∈ s, Text.isBlank c = false

theorem isOperatorChar_iff {c : Char} : isOperatorChar c = true ↔ c ∈ ['<', '>', '='] := by
  unfold isOperatorChar
  simp only [Bool.or_eq_true, beq_iff_eq, List.mem_cons, List.not_mem_nil, or_false, or_assoc]

theorem isNameChar_iff {c : Char} :
    isNameChar c = true ↔ Text.isBlank c = false ∧ c ∉ ['<', '>', '='] := by
  unfold isNameChar
  rw [Bool.and_eq_true, Bool.not_eq_true', Bool.not_eq_true', ← isOperatorChar_iff,
    Bool.not_eq_true]

theorem isBlank_of_isNameChar {c : Char} (h : isNameChar c = true) : Text.isBlank c = false :=
  (isNameChar_iff.mp h).1

theorem isBlank_of_isOperatorChar {c : Char} (h : isOperatorChar c = true) :
    Text.isBlank c = false := by
  rw [isOperatorChar_iff] at h
  simp only [List.mem_cons, List.not_mem_nil, or_false] at h
  rcases h with rfl | rfl | rfl <;> rfl

theorem isNameChar_of_isBlank {c : Char} (h : Text.isBlank c = true) : isNameChar c = false :=
  Bool.eq_false_iff.mpr fun hc => absurd h (by rw [(isNameChar_iff.mp hc).1]; simp)

theorem isOperatorChar_of_isBlank {c : Char} (h : Text.isBlank c = true) :
    isOperatorChar c = false :=
  Bool.eq_false_iff.mpr fun hc => absurd h (by rw [isBlank_of_isOperatorChar hc]; simp)

theorem isNameChar_of_isOperatorChar {c : Char} (h : isOperatorChar c = true) :
    isNameChar c = false :=
  Bool.eq_false_iff.mpr fun hc => (isNameChar_iff.mp hc).2 (isOperatorChar_iff.mp h)

theorem IsOperator.chars {s : List Char} (h : IsOperator s) :
    s ≠ [] ∧ ∀ c ∈ s, isOperatorChar c = true := by
  obtain ⟨op, hop⟩ := h
  have hall : ∀ p ∈ Operator.spellings, p.1.toList ≠ [] ∧
      p.1.toList.all isOperatorChar = true := by decide +kernel
  have hs := hall _ hop
  rwa [String.toList_ofList, List.all_eq_true] at hs

/-! ## Layouts -/

/-- A relation as it is written, with the white space around its parts. -/
inductive Layout where
  /-- Every version of a name. -/
  | bare (front name back : List Char)
  /-- A range of the versions of a name. -/
  | ranged (front name gap operator gap' version back : List Char)

namespace Layout

/-- The parts put together. -/
def text : Layout → List Char
  | bare front name back => front ++ (name ++ back)
  | ranged front name gap operator gap' version back =>
    front ++ (name ++ (gap ++ (operator ++ (gap' ++ (version ++ back)))))

/-- The parts without the white space: a name and, in a range, an operator and a version. -/
def parts : Layout → List Char × Option (List Char × List Char)
  | bare _ name _ => (name, none)
  | ranged _ name _ operator _ version _ => (name, some (operator, version))

/-- Whether every part is what it stands for. -/
def IsProper : Layout → Prop
  | bare front name back => IsGap front ∧ IsName name ∧ IsGap back
  | ranged front name gap operator gap' version back =>
    IsGap front ∧ IsName name ∧ IsGap gap ∧ IsOperator operator ∧ IsGap gap' ∧
      IsVersion version ∧ IsGap back

/-- Whether a layout says what a relation does. -/
def Denotes : Layout → Relation → Prop
  | bare _ name _, r => r = { name := String.ofList name, constraint := none }
  | ranged _ name _ operator _ version _, r =>
    ∃ op evr, (String.ofList operator, op) ∈ Operator.spellings ∧
      Evr.parse (String.ofList version) = .ok evr ∧
        r = { name := String.ofList name, constraint := some (op, evr) }

/-- A text taken apart, each part as long as it can be. -/
def scan (s : List Char) : Layout :=
  let front := s.takeWhile Text.isBlank
  let s := s.dropWhile Text.isBlank
  let name := s.takeWhile isNameChar
  let s := s.dropWhile isNameChar
  let gap := s.takeWhile Text.isBlank
  let s := s.dropWhile Text.isBlank
  if s.isEmpty then bare front name gap
  else
    let operator := s.takeWhile isOperatorChar
    let s := s.dropWhile isOperatorChar
    let gap' := s.takeWhile Text.isBlank
    let s := s.dropWhile Text.isBlank
    ranged front name gap operator gap' (s.takeWhile fun c => !Text.isBlank c)
      (s.dropWhile fun c => !Text.isBlank c)

theorem text_scan (s : List Char) : (scan s).text = s := by
  unfold scan
  dsimp only
  split
  · rename_i hnil
    rw [text, ← List.append_nil (List.takeWhile _ (List.dropWhile isNameChar _)),
      ← List.isEmpty_iff.mp hnil, List.takeWhile_append_dropWhile, List.takeWhile_append_dropWhile,
      List.takeWhile_append_dropWhile]
  · rw [text, List.takeWhile_append_dropWhile, List.takeWhile_append_dropWhile,
      List.takeWhile_append_dropWhile, List.takeWhile_append_dropWhile,
      List.takeWhile_append_dropWhile, List.takeWhile_append_dropWhile]

/-- **Each part is found again**, since none can run on into the next. -/
theorem scan_text {l : Layout} (h : l.IsProper) : scan l.text = l := by
  cases l with
  | bare front name back =>
      obtain ⟨hfront, ⟨hne, hname⟩, hback⟩ := h
      obtain ⟨htake₁, hdrop₁⟩ := Text.cut (name ++ back) hfront
        (.append hne fun c hc => (hname c hc).1)
      obtain ⟨htake₂, hdrop₂⟩ := Text.cut back (fun c hc => isNameChar_iff.mpr (hname c hc))
        (.all fun c hc => isNameChar_of_isBlank (hback c hc))
      obtain ⟨htake₃, hdrop₃⟩ := Text.cut_all hback
      unfold scan
      dsimp only [text]
      rw [htake₁, hdrop₁, htake₂, hdrop₂, htake₃, hdrop₃]
      rfl
  | ranged front name gap operator gap' version back =>
      obtain ⟨hfront, ⟨hne, hname⟩, hgap, hoperator, hgap', hversion, hback⟩ := h
      obtain ⟨hsome, hchars⟩ := hoperator.chars
      obtain ⟨hfirst, hbare⟩ := hversion
      have hnil : version ≠ [] := by
        obtain ⟨c, rest, rfl, -⟩ := hfirst
        exact List.cons_ne_nil c rest
      obtain ⟨htake₁, hdrop₁⟩ := Text.cut
        (name ++ (gap ++ (operator ++ (gap' ++ (version ++ back))))) hfront
        (.append hne fun c hc => (hname c hc).1)
      -- the name ends at a blank, or at the operator
      obtain ⟨htake₂, hdrop₂⟩ := Text.cut
        (gap ++ (operator ++ (gap' ++ (version ++ back))))
        (fun c hc => isNameChar_iff.mpr (hname c hc))
        (.behind (fun c hc => isNameChar_of_isBlank (hgap c hc))
          (.append hsome fun c hc => isNameChar_of_isOperatorChar (hchars c hc)))
      obtain ⟨htake₃, hdrop₃⟩ := Text.cut (operator ++ (gap' ++ (version ++ back))) hgap
        (.append hsome fun c hc => isBlank_of_isOperatorChar (hchars c hc))
      -- the operator ends at a blank, or at a version that does not begin like one
      obtain ⟨htake₄, hdrop₄⟩ := Text.cut (gap' ++ (version ++ back)) hchars
        (.behind (fun c hc => isOperatorChar_of_isBlank (hgap' c hc)) (by
          obtain ⟨c, rest, rfl, hc⟩ := hfirst
          exact .cons (Bool.eq_false_iff.mpr fun h => hc (isOperatorChar_iff.mp h))))
      obtain ⟨htake₅, hdrop₅⟩ := Text.cut (version ++ back) hgap' (.append hnil hbare)
      obtain ⟨htake₆, hdrop₆⟩ := @Text.cut (fun c => !Text.isBlank c) version back
        (fun c hc => by rw [hbare c hc]; rfl)
        (.all fun c hc => by rw [hback c hc]; rfl)
      have hrange : ¬(operator ++ (gap' ++ (version ++ back))).isEmpty = true := by
        rw [List.isEmpty_iff]
        exact fun h => hsome (List.append_eq_nil_iff.mp h).1
      unfold scan
      dsimp only [text]
      rw [htake₁, hdrop₁, htake₂, hdrop₂, htake₃, hdrop₃, if_neg hrange, htake₄, hdrop₄, htake₅,
        hdrop₅, htake₆, hdrop₆]

/-- A text has one layout at most. -/
theorem IsProper.eq_scan {l : Layout} {s : List Char} (h : l.IsProper) (hs : l.text = s) :
    l = scan s := by
  rw [← hs, scan_text h]

end Layout

/-! ## Reading -/

theorem forall_mem_takeWhile (p : Char → Bool) (s : List Char) : ∀ c ∈ s.takeWhile p, p c = true :=
  fun c hc => List.all_eq_true.mp List.all_takeWhile c hc

theorem isGap_iff {s : List Char} : IsGap s ↔ s.all Text.isBlank = true := List.all_eq_true.symm

theorem isOperator_iff {s : List Char} :
    IsOperator s ↔ (Operator.spellings.lookup (String.ofList s)).isNone = false := by
  unfold IsOperator
  simp only [← Operator.lookup_eq_some]
  cases Operator.spellings.lookup (String.ofList s) <;> simp

theorem isVersion_iff {s : List Char} (h : ∀ c ∈ s, Text.isBlank c = false) :
    IsVersion s ↔ s.isEmpty = false ∧ s.head?.any isOperatorChar = false := by
  unfold IsVersion
  cases s with
  | nil => simp
  | cons c rest =>
      rw [List.head?_cons, Option.any_some, Bool.eq_false_iff (b := isOperatorChar c), ne_eq,
        isOperatorChar_iff]
      refine ⟨fun ⟨⟨x, s, he, hx⟩, _⟩ => ⟨rfl, ?_⟩, fun hc => ⟨⟨c, rest, rfl, hc.2⟩, h⟩⟩
      rwa [(List.cons.inj he).1]

/-- What it takes of the operator, the version and what follows them to be accepted. -/
theorem not_refused_iff {operator version back : List Char}
    (h : ∀ c ∈ version, Text.isBlank c = false) :
    ((Operator.spellings.lookup (String.ofList operator)).isNone || version.isEmpty
        || version.head?.any isOperatorChar || !back.all Text.isBlank) = false ↔
      IsOperator operator ∧ IsVersion version ∧ IsGap back := by
  rw [Bool.or_eq_false_iff, Bool.or_eq_false_iff, Bool.or_eq_false_iff, isOperator_iff,
    isVersion_iff h, isGap_iff, Bool.not_eq_false']
  simp only [and_assoc]

/-- What is read are the parts of a proper layout. -/
theorem splitParts?_eq_some_iff {s : List Char}
    {parts : List Char × Option (List Char × List Char)} :
    splitParts? s = some parts ↔ (Layout.scan s).IsProper ∧ (Layout.scan s).parts = parts := by
  unfold splitParts? Layout.scan Text.trimLeft
  dsimp only
  have hname : ∀ c ∈ (s.dropWhile Text.isBlank).takeWhile isNameChar,
      Text.isBlank c = false ∧ c ∉ ['<', '>', '='] :=
    fun c hc => isNameChar_iff.mp (forall_mem_takeWhile _ _ c hc)
  have hfront : IsGap (s.takeWhile Text.isBlank) := forall_mem_takeWhile _ _
  have hgap : IsGap (((s.dropWhile Text.isBlank).dropWhile isNameChar).takeWhile Text.isBlank) :=
    forall_mem_takeWhile _ _
  generalize (s.dropWhile Text.isBlank).takeWhile isNameChar = name at hname ⊢
  generalize ((s.dropWhile Text.isBlank).dropWhile isNameChar).dropWhile Text.isBlank = range
  by_cases hne : name = []
  · -- without a name there is no relation
    rw [if_pos (List.isEmpty_iff.mpr hne)]
    refine iff_of_false (by simp) fun h => ?_
    split at h
    · exact h.1.2.1.1 hne
    · exact h.1.2.1.1 hne
  · rw [if_neg fun h => hne (List.isEmpty_iff.mp h)]
    split
    · exact ⟨fun h => ⟨⟨hfront, ⟨hne, hname⟩, hgap⟩, Option.some.inj h⟩, fun h => congrArg some h.2⟩
    · have hgap' : IsGap ((range.dropWhile isOperatorChar).takeWhile Text.isBlank) :=
        forall_mem_takeWhile _ _
      have hversion : ∀ c ∈ ((range.dropWhile isOperatorChar).dropWhile Text.isBlank).takeWhile
          (fun c => !Text.isBlank c), Text.isBlank c = false := fun c hc =>
        (Bool.not_eq_true' _).mp (forall_mem_takeWhile _ _ c hc)
      split
      · rename_i hrefused
        refine iff_of_false (by simp) fun h => ?_
        obtain ⟨⟨-, -, -, hoperator, -, hversion', hback⟩, -⟩ := h
        rw [(not_refused_iff hversion).mpr ⟨hoperator, hversion', hback⟩] at hrefused
        exact absurd hrefused (by simp)
      · rename_i hrefused
        obtain ⟨hoperator, hversion', hback⟩ :=
          (not_refused_iff hversion).mp (Bool.eq_false_iff.mpr hrefused)
        exact ⟨fun h => ⟨⟨hfront, ⟨hne, hname⟩, hgap, hoperator, hgap', hversion', hback⟩,
          Option.some.inj h⟩, fun h => congrArg some h.2⟩

/-- What the reader accepts, part by part. -/
theorem exists_layout_of_splitParts? {s : List Char}
    {parts : List Char × Option (List Char × List Char)} :
    splitParts? s = some parts ↔ ∃ l : Layout, l.text = s ∧ l.IsProper ∧ l.parts = parts := by
  rw [splitParts?_eq_some_iff]
  refine ⟨fun h => ⟨Layout.scan s, Layout.text_scan s, h⟩, fun ⟨l, htext, hproper, hparts⟩ => ?_⟩
  rw [← hproper.eq_scan htext]
  exact ⟨hproper, hparts⟩

/-- What is made of the three parts. -/
def ofParts : List Char × Option (List Char × List Char) → Except EvrError Relation
  | (name, none) => .ok (ofName (String.ofList name))
  | (name, some (operator, version)) =>
    match Operator.parse (String.ofList operator) with
    | .error e => .error e
    | .ok op =>
      match Evr.parse (String.ofList version) with
      | .error e => .error e
      | .ok evr => .ok ((ofName (String.ofList name)).constrained op evr)

theorem parse_eq (text : String) : parse text =
    match splitParts? text.toList with
    | none => .error (.invalidRelation text)
    | some parts => ofParts parts := by
  unfold parse
  rcases splitParts? text.toList with _ | ⟨name, _ | ⟨operator, version⟩⟩ <;> rfl

theorem ofParts_eq_ok {l : Layout} {r : Relation} : ofParts l.parts = .ok r ↔ l.Denotes r := by
  cases l with
  | bare front name back => exact ⟨fun h => (Except.ok.inj h).symm, fun h => congrArg _ h.symm⟩
  | ranged front name gap operator gap' version back =>
      simp only [Layout.parts, Layout.Denotes, ofParts, ← Operator.parse_eq_ok]
      cases hop : Operator.parse (String.ofList operator) with
      | error e => simp
      | ok op =>
          cases hevr : Evr.parse (String.ofList version) with
          | error e => simp
          | ok evr => simp [ofName, constrained, eq_comm]

/-- A text of a proper layout is read for its parts, whatever white space there is. -/
theorem parse_text {l : Layout} (h : l.IsProper) :
    parse (String.ofList l.text) = ofParts l.parts := by
  rw [parse_eq, String.toList_ofList,
    exists_layout_of_splitParts?.mpr ⟨l, rfl, h, rfl⟩]

theorem parse_eq_ok {text : String} {r : Relation} : parse text = .ok r ↔
    ∃ l : Layout, l.text = text.toList ∧ l.IsProper ∧ l.Denotes r := by
  refine ⟨fun h => ?_, fun ⟨l, htext, hproper, hdenotes⟩ => ?_⟩
  · rw [parse_eq] at h
    cases hparts : splitParts? text.toList with
    | none =>
        rw [hparts] at h
        exact absurd h (by simp)
    | some parts =>
        rw [hparts] at h
        obtain ⟨l, htext, hproper, rfl⟩ := exists_layout_of_splitParts?.mp hparts
        exact ⟨l, htext, hproper, ofParts_eq_ok.mp h⟩
  · rw [← String.ofList_toList (s := text), ← htext, parse_text hproper]
    exact ofParts_eq_ok.mpr hdenotes

/--
**A relation is read exactly as it is written.**

A text is read as a relation exactly if it can be laid out as a name and, possibly, an operator and
the text of a version that can be read itself, with white space around them; and the relation is the
one that these parts denote. No text can be laid out in two ways. White space around the parts
changes nothing, not even how a text is refused whose version cannot be read.
-/
theorem parse_by_layout (text : String) :
    (∀ r, parse text = .ok r ↔
      ∃ l : Layout, l.text = text.toList ∧ l.IsProper ∧ l.Denotes r) ∧
    (∀ l l' : Layout, l.IsProper → l'.IsProper → l.text = text.toList → l'.text = text.toList →
      l = l') ∧
    ∀ l l' : Layout, l.IsProper → l'.IsProper → l.parts = l'.parts → l.text = text.toList →
      parse (String.ofList l'.text) = parse text := by
  refine ⟨fun r => parse_eq_ok, fun l l' h h' htext htext' => ?_,
    fun l l' h h' hparts htext => ?_⟩
  · rw [h.eq_scan htext, h'.eq_scan htext']
  · rw [parse_text h', ← hparts, ← parse_text h, htext, String.ofList_toList]

/-- No white space at all, and operator characters within the version. -/
def tight : Layout := .ranged [] ['l', 'i', 'b'] [] ['=', '>'] [] ['1', '>', '=', '2'] []

/-- The same with white space of three kinds. -/
def loose : Layout :=
  .ranged ['\t'] ['l', 'i', 'b'] [' ', ' '] ['=', '>'] ['\u00a0'] ['1', '>', '=', '2'] ['\n']

theorem isProper_tight : tight.IsProper := by
  have hname : ['l', 'i', 'b'].all isNameChar = true := by decide +kernel
  have hbare : ['1', '>', '=', '2'].all (!Text.isBlank ·) = true := by decide +kernel
  refine ⟨nofun, ⟨nofun, fun c hc => ?_⟩, nofun, ⟨.greaterThanOrEqual, by decide⟩, nofun,
    ⟨⟨'1', _, rfl, by decide⟩, fun c hc => ?_⟩, nofun⟩
  · exact isNameChar_iff.mp (List.all_eq_true.mp hname c hc)
  · exact (Bool.not_eq_true' _).mp (List.all_eq_true.mp hbare c hc)

theorem isProper_loose : loose.IsProper := by
  obtain ⟨-, hname, -, hoperator, -, hversion, -⟩ := isProper_tight
  exact ⟨by decide, hname, by decide, hoperator, by decide, hversion, by decide⟩

/-- The first of the operators that could be seen in it is the one that is read. -/
theorem parse_by_layout_tight :
    parse "lib=>1>=2" = .ok
      { name := "lib", constraint := some (.greaterThanOrEqual, ⟨0, "1>=2", none⟩) } ∧
    parse "\tlib  =>\u00a01>=2\n" = parse "lib=>1>=2" ∧
    ∀ l : Layout, l.IsProper → l.text = "lib=>1>=2".toList → l = tight := by
  obtain ⟨hread, hunique, hgaps⟩ := parse_by_layout "lib=>1>=2"
  refine ⟨(hread _).mpr
      ⟨tight, by decide, isProper_tight, .greaterThanOrEqual, _, by decide, ?_, rfl⟩, ?_,
    fun l hproper htext => hunique l tight hproper isProper_tight htext (by decide)⟩
  · rfl
  · exact hgaps tight loose isProper_tight isProper_loose rfl (by decide)

end Relation

end DepSolver
