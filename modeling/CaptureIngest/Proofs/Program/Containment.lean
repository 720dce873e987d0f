import CaptureIngest.Proofs.Program.Parameters
import CaptureIngest.Text.WhiteSpace

/-!
# Nothing breaks out of its place in a program

The strings of a source may hold anything: quotes, line feeds, whole clauses. Where they are written
they stay on the line that they belong to, so the text of a program falls apart at its pairs of line
feeds into the sections that it was put together from.

* `Text.IsBlank s`: the text `s` holds nothing but white space.
* **No blank lines** (`not_isBlank_of_mem_sectionLines`): every line of a section holds a character
  that is no white space. In front of the encoding clause that is the opening of the line, and in a
  field list it is the comma or the parenthesis behind the field.
* **One opening each** (`Definition.begins_space_of_mem_tail`): all lines of a definition but the
  first are indented, so the lines that open a definition can be counted.
* **Contained** (`text_contained`): all of this of the text of any program.
-/

namespace CaptureIngest

/-! ## Blank lines -/

namespace Text

/-- A text of white space only. -/
def IsBlank (s : String) : Prop :=
  ∀ c ∈ s.toList, isWhiteSpace c = true

instance (s : String) : Decidable (IsBlank s) :=
  decidable_of_iff (s.toList.all isWhiteSpace = true) List.all_eq_true

/-- A text is blank iff its two parts are. -/
@[simp]
theorem isBlank_append {s t : String} : IsBlank (s ++ t) ↔ IsBlank s ∧ IsBlank t := by
  unfold IsBlank
  rw [String.toList_append, List.forall_mem_append]

end Text

/-- A line is not blank if none of its openings is. -/
theorem Opens.not_isBlank {openings : List String} {line : String} (h : Opens openings line)
    (hopenings : ∀ o ∈ openings, ¬ Text.IsBlank o) : ¬ Text.IsBlank line := by
  obtain ⟨o, ho, rest, -, rfl⟩ := h
  rw [Text.isBlank_append]
  intro hblank
  exact hopenings o ho hblank.1

/-- A line begins with a space if all its openings do. -/
theorem Opens.begins_space {openings : List String} {line : String} (h : Opens openings line)
    (hopenings : ∀ o ∈ openings, Text.Begins " " o) : Text.Begins " " line := by
  obtain ⟨o, ho, rest, -, rfl⟩ := h
  obtain ⟨tail, htail⟩ := hopenings o ho
  exact ⟨tail ++ rest, by rw [htail, String.append_assoc]⟩

/-- Behind a field there is always a comma or a parenthesis. -/
theorem FieldList.not_isBlank_of_mem_linesFrom {fields : List Field} (position : Nat) :
    ∀ line ∈ linesFrom position fields, ¬ Text.IsBlank line := by
  induction fields generalizing position with
  | nil => exact fun line hline => absurd hline List.not_mem_nil
  | cons f fields ih =>
    intro line hline
    rw [linesFrom_cons] at hline
    rcases List.mem_cons.mp hline with rfl | hline
    · have hclose : ∀ isLast : Bool, ¬ Text.IsBlank (if isLast then ")" else ",") := by decide
      simp only [FieldList.line, bareLine, Text.isBlank_append]
      intro hblank
      exact hclose fields.isEmpty hblank.1.2
    · exact ih (position + 1) line hline

namespace Definition

/-- The lines of a definition, the first of them apart from the others. -/
theorem closedLines_eq_cons (d : Definition) :
    d.closedLines = ("DEFINE LAZY " ++ Text.quoteIdentifier d.name ++ " AS") ::
      ("  READ FROM" :: (d.clause.lines ++
        (encodingLines d.key.encoding ++ FieldList.lines d.schema.fields) ++ closingLines)) :=
  rfl

/-- Behind its first line a definition is indented. -/
theorem begins_space_of_mem_tail {d : Definition} :
    ∀ line ∈ d.closedLines.tail, Text.Begins " " line := by
  have hencoding : ∀ e, ∀ line ∈ encodingLines e, Text.Begins " " line := by
    intro e
    cases e <;> decide
  have hclosing : ∀ line ∈ closingLines, Text.Begins " " line := by decide
  intro line hline
  rw [closedLines_eq_cons, List.tail_cons] at hline
  simp only [List.mem_cons, List.mem_append] at hline
  rcases hline with rfl | ((hline | hline | hline) | hline)
  · decide
  · exact (Clause.opens_of_mem_lines line hline).begins_space (by decide)
  · exact hencoding d.key.encoding line hline
  · exact (opens_of_mem_fieldLines line hline).begins_space (by decide)
  · exact hclosing line hline

/-- No line of a definition is blank. -/
theorem not_isBlank_of_mem_closedLines {d : Definition} :
    ∀ line ∈ d.closedLines, ¬ Text.IsBlank line := by
  have hencoding : ∀ e, ∀ line ∈ encodingLines e, ¬ Text.IsBlank line := by
    intro e
    cases e <;> decide
  have hclosing : ∀ line ∈ closingLines, ¬ Text.IsBlank line := by decide
  intro line hline
  simp only [closedLines, List.mem_append] at hline
  rcases hline with (hline | hline | hline) | hline
  · exact (opens_of_mem_frontLines line hline).not_isBlank (by decide)
  · exact hencoding d.key.encoding line hline
  · exact FieldList.not_isBlank_of_mem_linesFrom 1 line hline
  · exact hclosing line hline

end Definition

namespace Program

/-- A declaration is not blank. -/
theorem not_isBlank_of_mem_declarationLines {ds : List Declared} :
    ∀ line ∈ declarationLines ds, ¬ Text.IsBlank line := by
  have hmiddle : ¬ Text.IsBlank " DEFAULTS TO " := by decide
  induction ds with
  | nil => exact fun line hline => absurd hline List.not_mem_nil
  | cons d ds ih =>
    intro line hline
    rcases List.mem_cons.mp hline with rfl | hline
    · simp only [declarationText, Text.isBlank_append]
      intro hblank
      exact hmiddle hblank.1.2.1.2
    · exact ih line hline

/-- **No blank lines**: every line of every section holds more than white space. -/
theorem not_isBlank_of_mem_sectionLines {style : Style} {definitions : List Definition} :
    ∀ lines ∈ sectionLines style definitions, ∀ line ∈ lines, ¬ Text.IsBlank line := by
  intro lines hlines line hline
  simp only [sectionLines, List.mem_cons, List.mem_append, List.mem_map] at hlines
  rcases hlines with rfl | hlines | ⟨d, -, rfl⟩
  · obtain rfl := List.mem_singleton.mp hline
    decide
  · cases hds : declaredIn style definitions with
    | nil =>
      rw [hds] at hlines
      cases hlines
    | cons d ds =>
      rw [hds] at hlines
      obtain rfl := List.mem_singleton.mp hlines
      rcases List.mem_cons.mp hline with rfl | hline
      · decide
      · exact not_isBlank_of_mem_declarationLines line hline
  · exact Definition.not_isBlank_of_mem_closedLines line hline

/-! ## Counting openings -/

/-- Where separators do not count, the lines between them do. -/
theorem countP_intercalate {p : String → Bool} {separator : String} (hp : p separator = false)
    (ls : List (List String)) :
    ([separator].intercalate ls).countP p = ls.flatten.countP p := by
  induction ls with
  | nil => rfl
  | cons lines ls ih =>
    by_cases hls : ls = []
    · subst hls
      simp
    · rw [List.intercalate_cons_of_ne_nil hls, List.countP_append, List.countP_append, ih,
        List.countP_singleton, hp, List.flatten_cons, List.countP_append]
      simp

/-- A line opens a definition. -/
def opensBlock (line : String) : Bool :=
  decide (Text.Begins blockOpening line)

/-- A definition opens once. -/
theorem countP_closedLines (d : Definition) : d.closedLines.countP opensBlock = 1 := by
  have hfirst : opensBlock ("DEFINE LAZY " ++ Text.quoteIdentifier d.name ++ " AS") = true :=
    decide_eq_true ⟨Text.quoteIdentifier d.name ++ " AS", String.append_assoc⟩
  have hothers : d.closedLines.tail.countP opensBlock = 0 := by
    rw [List.countP_eq_zero]
    intro line hline
    obtain ⟨rest, rfl⟩ := Definition.begins_space_of_mem_tail line hline
    rw [opensBlock, decide_eq_true_eq]
    exact Text.not_begins_append (by decide) (by decide) rest
  rw [Definition.closedLines_eq_cons, List.tail_cons] at hothers
  rw [Definition.closedLines_eq_cons, List.countP_cons_of_pos hfirst, hothers]

/-- No declaration opens a definition. -/
theorem countP_parameterLines (ds : List Declared) :
    (parameterLines ds).flatten.countP opensBlock = 0 := by
  cases ds with
  | nil => rfl
  | cons d ds =>
    have hhead : opensBlock parameterHead = false := by decide
    have hlines : (declarationLines (d :: ds)).countP opensBlock = 0 := by
      rw [List.countP_eq_zero]
      intro line hline
      rw [opensBlock, decide_eq_true_eq]
      exact (opens_of_mem_declarationLines line hline).not_begins (by decide)
    simp only [parameterLines, List.flatten_cons, List.flatten_nil, List.append_nil,
      List.countP_cons, hlines, hhead]
    rfl

/-- Definitions open as many times as there are of them. -/
theorem countP_flatMap_closedLines (definitions : List Definition) :
    (definitions.flatMap (·.closedLines)).countP opensBlock = definitions.length := by
  induction definitions with
  | nil => rfl
  | cons d definitions ih =>
    rw [List.flatMap_cons, List.countP_append, countP_closedLines, ih, List.length_cons,
      Nat.add_comm]

/-- The sections of a program open as many definitions as there are. -/
theorem countP_sectionLines (style : Style) (definitions : List Definition) :
    (sectionLines style definitions).flatten.countP opensBlock = definitions.length := by
  have hheader : [header].countP opensBlock = 0 := by decide
  rw [sectionLines, List.flatten_cons, List.flatten_append, List.countP_append, List.countP_append,
    hheader, countP_parameterLines, ← List.flatMap_def, countP_flatMap_closedLines]
  omega

/-! ## Contained -/

/-- Only a program without definitions has nothing to declare. -/
theorem parameters_eq_nil_iff {definitions : List Definition} :
    parameters definitions = [] ↔ definitions = [] := by
  constructor
  · intro hnil
    by_contra hne
    obtain ⟨d, ds, rfl⟩ := List.exists_cons_of_ne_nil hne
    have hnames : names (parameters (d :: ds)) = [] := by rw [hnil]; rfl
    cases hs : d.source with
    | files s =>
      have hmem : .pathPrefix d.key.encoding ∈ names (parameters (d :: ds)) := by
        apply mem_parameters_of_mem List.mem_cons_self _ Parameter.noConfusion
        rw [hs]
        exact List.mem_cons_self
      rw [hnames] at hmem
      cases hmem
    | topic s =>
      have hmem : .brokerList ∈ names (parameters (d :: ds)) := by
        apply mem_parameters_of_mem List.mem_cons_self _ Parameter.noConfusion
        rw [hs]
        exact List.mem_cons_self
      rw [hnames] at hmem
      cases hmem
  · rintro rfl
    rfl

/-- There is a section of declarations iff something is declared in the style. -/
theorem parameterLines_ne_nil_iff {style : Style} {definitions : List Definition} :
    parameterLines (declaredIn style definitions) ≠ [] ↔
      style = .parameterized ∧ definitions ≠ [] := by
  have hnil : ∀ ds, parameterLines ds = [] ↔ ds = [] := by
    intro ds
    cases ds <;> simp [parameterLines]
  rw [ne_eq, hnil]
  cases style with
  | resolved => simp [declaredIn]
  | parameterized => simp [declaredIn, parameters_eq_nil_iff]

/-- The section of declarations begins with a line of its own. -/
theorem begins_of_mem_parameterLines {ds : List Declared} :
    ∀ lines ∈ parameterLines ds, Text.Begins "PARAMETERS\n" (Text.joinLines lines) := by
  intro lines hlines
  cases ds with
  | nil => cases hlines
  | cons d ds =>
    obtain rfl := List.mem_singleton.mp hlines
    refine ⟨Text.joinLines (declarationLines (d :: ds)), ?_⟩
    exact Text.joinLines_cons (List.cons_ne_nil _ _)

/-- There is at most one section of declarations. -/
theorem length_parameterLines_le (ds : List Declared) : (parameterLines ds).length ≤ 1 := by
  cases ds with
  | nil => exact Nat.zero_le 1
  | cons d ds => exact Nat.le_refl 1

/-- **Contained**: whatever the sources of its definitions hold and in whatever styles they are
written, the text of a program without its last line feed falls apart at the pairs of line feeds into
the header, at most one section of declarations, and the texts of the definitions in their order. As
many lines open a definition as there are definitions, each of them ends in a semicolon, and the only
blank lines are the empty ones between the sections. -/
theorem text_contained (style : Style) (definitions : List Definition) :
    ∃ body declarations,
      text style definitions = body ++ "\n" ∧
      Text.cutAtGaps body = header :: (declarations ++ definitions.map (·.text)) ∧
      declarations.length ≤ 1 ∧
      (∀ s ∈ declarations, Text.Begins "PARAMETERS\n" s) ∧
      (declarations ≠ [] ↔ style = .parameterized ∧ definitions ≠ []) ∧
      (Text.splitLines body).countP (fun line => Text.Begins "DEFINE LAZY " line) =
        definitions.length ∧
      (∀ d ∈ definitions, ∃ front, d.text = front ++ ";") ∧
      Text.splitLines body = [""].intercalate ((Text.cutAtGaps body).map Text.splitLines) ∧
      ∀ s ∈ Text.cutAtGaps body, ∀ line ∈ Text.splitLines s, ¬ Text.IsBlank line := by
  have hparagraph : ∀ lines ∈ sectionLines style definitions, Text.IsParagraph lines :=
    isParagraph_of_mem_sectionLines
  have hne : sectionLines style definitions ≠ [] := List.cons_ne_nil _ _
  have hcut : Text.cutAtGaps ("\n\n".intercalate (sections style definitions)) =
      (sectionLines style definitions).map Text.joinLines := by
    rw [sections_eq_map]
    exact Text.cutAtGaps_intercalate hparagraph hne
  have hlines : Text.splitLines ("\n\n".intercalate (sections style definitions)) =
      [""].intercalate (sectionLines style definitions) := by
    rw [sections_eq_map]
    exact Text.splitLines_intercalate hparagraph hne
  have hback : ∀ lines ∈ sectionLines style definitions,
      Text.splitLines (Text.joinLines lines) = lines := fun lines hmem =>
    Text.splitLines_joinLines (hparagraph lines hmem).oneLine (hparagraph lines hmem).ne_nil
  refine ⟨"\n\n".intercalate (sections style definitions),
    (parameterLines (declaredIn style definitions)).map Text.joinLines, rfl, ?_, ?_, ?_, ?_, ?_, ?_,
    ?_, ?_⟩
  · rw [hcut]
    exact map_joinLines_sectionLines style definitions
  · rw [List.length_map]
    exact length_parameterLines_le _
  · intro s hs
    obtain ⟨lines, hlines, rfl⟩ := List.mem_map.mp hs
    exact begins_of_mem_parameterLines lines hlines
  · rw [ne_eq, List.map_eq_nil_iff]
    exact parameterLines_ne_nil_iff
  · rw [hlines]
    exact (countP_intercalate (p := opensBlock) (by decide) _).trans
      (countP_sectionLines style definitions)
  · intro d _
    exact ⟨Text.joinLines d.lines, rfl⟩
  · rw [hlines, hcut, List.map_map]
    exact congrArg [""].intercalate ((List.map_congr_left hback).trans (List.map_id' _)).symm
  · rw [hcut]
    intro s hs line hline
    obtain ⟨lines, hmem, rfl⟩ := List.mem_map.mp hs
    rw [hback lines hmem] at hline
    exact not_isBlank_of_mem_sectionLines lines hmem line hline

end Program

end CaptureIngest
