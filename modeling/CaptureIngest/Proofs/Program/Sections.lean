import CaptureIngest.Program
import CaptureIngest.Proofs.Definition.Meaning

/-!
# The sections of a program

The text of a program is taken apart at its empty lines. No line of a section is empty, whatever the
strings of the sources hold, so the sections come out as they went in, and what a program declares
can be read off its text.

* `blocks text`: the definitions in the text of a program.
* `Declares text declared`: the text of a program declares these parameters with these values, in
  this order.
* **Sections** (`paragraphs_text`): between the empty lines of a program stand the header, the
  declarations if there are any, and the definitions.
* **Definitions** (`blocks_text`): the blocks of a program are the texts of its definitions.
* **Declarations** (`declares_text_iff`): the text of a program declares what the program does, and
  nothing else.
-/

namespace CaptureIngest

/-! ## Declarations -/

/-- The value of a parameter is written on one line. -/
theorem ParameterValue.oneLine_render (v : ParameterValue) : Text.OneLine v.render := by
  cases v with
  | text s => exact Text.oneLine_quoteString s
  | flag b => cases b <;> decide

/-- The value of a parameter and what follows it are told by what is written. -/
theorem ParameterValue.render_append_inj {v w : ParameterValue} {r s : String}
    (hr : Text.EndsWord r) (hs : Text.EndsWord s) (h : v.render ++ r = w.render ++ s) :
    v = w ∧ r = s := by
  have hword : ∀ b, (flag b).render.toList.all Text.isNameChar = true := by decide
  -- a literal begins with a quote, a truth value does not
  have hparts : ∀ (t u r : String) (b : Bool),
      Text.quoteString t ++ r ≠ (flag b).render ++ u := by
    intro t u r b hne
    obtain ⟨rest, hrest⟩ := Text.begins_quoteString t
    have hbegins : Text.Begins "\"" ((flag b).render ++ u) :=
      ⟨rest ++ r, by rw [← hne, hrest, String.append_assoc]⟩
    have hfirst : ∀ b, ¬ Text.Begins "\"" (flag b).render ∧ ¬ Text.Begins (flag b).render "\"" := by
      decide
    exact Text.not_begins_append (hfirst b).1 (hfirst b).2 u hbegins
  cases v with
  | text t =>
    cases w with
    | text u =>
      obtain ⟨rfl, rfl⟩ := Text.quoteString_append_inj h
      exact ⟨rfl, rfl⟩
    | flag b => exact absurd h (hparts t s r b)
  | flag a =>
    cases w with
    | text u => exact absurd h.symm (hparts u r s a)
    | flag b =>
      have hflag : ∀ a b, (flag a).render = (flag b).render → a = b := by decide
      obtain ⟨hname, hrest⟩ := Text.name_append_inj (List.all_eq_true.mp (hword a))
        (List.all_eq_true.mp (hword b)) hr hs h
      exact ⟨congrArg flag (hflag a b hname), hrest⟩

namespace Program

/-- A declaration and what follows it are told by what is written. -/
theorem declarationText_append_inj {d e : Declared} {r s : String} (hr : Text.EndsWord r)
    (hs : Text.EndsWord s) (h : declarationText d ++ r = declarationText e ++ s) : d = e ∧ r = s := by
  simp only [declarationText, String.append_assoc] at h
  obtain ⟨hname, hrest⟩ := Text.name_append_inj d.parameter.isNameChar_name
    e.parameter.isNameChar_name (.append (by decide) (by decide) _)
    (.append (by decide) (by decide) _) h
  obtain ⟨hvalue, rfl⟩ :=
    ParameterValue.render_append_inj hr hs ((String.append_right_inj _).mp hrest)
  have hparameter := Parameter.name_injective hname
  obtain ⟨p, v⟩ := d
  obtain ⟨q, w⟩ := e
  exact ⟨congrArg₂ Declared.mk hparameter hvalue, rfl⟩

/-- What stands behind a declaration. -/
def declarationEnd (isLast : Bool) : String :=
  if isLast then ";" else ","

/-- The lines that declare parameters. -/
def declarationLines : List Declared → List String
  | [] => []
  | d :: rest => ("  " ++ declarationText d ++ declarationEnd rest.isEmpty) :: declarationLines rest

/-- Declarations are told by their lines. -/
theorem declarationLines_inj {ds es : List Declared}
    (h : declarationLines ds = declarationLines es) : ds = es := by
  have hend : ∀ b, Text.EndsWord (declarationEnd b) := by decide
  induction ds generalizing es with
  | nil =>
    cases es with
    | nil => rfl
    | cons e es => cases h
  | cons d ds ih =>
    cases es with
    | nil => cases h
    | cons e es =>
      obtain ⟨hline, hrest⟩ := List.cons.inj h
      rw [String.append_assoc, String.append_assoc, String.append_right_inj] at hline
      rw [(declarationText_append_inj (hend _) (hend _) hline).1, ih hrest]

/-! ## Sections -/

/-- The parameters that a program declares in a style. -/
def declaredIn (style : Style) (definitions : List Definition) : List Declared :=
  match style with
  | .resolved => []
  | .parameterized => parameters definitions

/-- The first line of the section that declares parameters. -/
def parameterHead : String := "PARAMETERS"

/-- The section that declares parameters, if there are any, in lines. -/
def parameterLines : List Declared → List (List String)
  | [] => []
  | d :: rest => [parameterHead :: declarationLines (d :: rest)]

/-- The sections of a program, in lines. -/
def sectionLines (style : Style) (definitions : List Definition) : List (List String) :=
  [header] :: (parameterLines (declaredIn style definitions) ++ definitions.map (·.closedLines))

/-- Declarations are their lines. -/
theorem joinLines_declarationLines {ds : List Declared} (hne : ds ≠ []) :
    Text.joinLines (declarationLines ds) =
      "  " ++ ",\n  ".intercalate (ds.map declarationText) ++ ";" := by
  induction ds with
  | nil => exact absurd rfl hne
  | cons d ds ih =>
    by_cases hds : ds = []
    · subst hds
      simp [declarationLines, Text.joinLines, declarationEnd]
    · have hlines : declarationLines ds ≠ [] := by
        intro h
        have hnil : declarationLines ds = declarationLines [] := h
        exact hds (declarationLines_inj hnil)
      have hend : declarationEnd ds.isEmpty = "," := by
        rw [declarationEnd, List.isEmpty_eq_false_iff.mpr hds]
        rfl
      rw [declarationLines, Text.joinLines_cons hlines, ih hds, List.map_cons,
        String.intercalate_cons_of_ne_nil (by simpa using hds), hend]
      simp only [String.append_assoc]
      rfl

/-- The section that declares parameters is its lines. -/
theorem toList_parameterSection? (definitions : List Definition) :
    (parameterSection? definitions).toList =
      (parameterLines (parameters definitions)).map Text.joinLines := by
  unfold parameterSection?
  cases hds : parameters definitions with
  | nil => rfl
  | cons d ds =>
    have hlines := joinLines_declarationLines (List.cons_ne_nil d ds)
    have hsection : Text.joinLines (parameterHead :: declarationLines (d :: ds)) =
        "PARAMETERS\n  " ++ ",\n  ".intercalate ((d :: ds).map declarationText) ++ ";" := by
      rw [declarationLines, Text.joinLines_cons (List.cons_ne_nil _ _), ← declarationLines, hlines]
      simp only [String.append_assoc]
      rfl
    rw [parameterLines, List.map_singleton, hsection]
    rfl

/-- The lines of the sections, joined: the header, the declarations and the definitions. -/
theorem map_joinLines_sectionLines (style : Style) (definitions : List Definition) :
    (sectionLines style definitions).map Text.joinLines =
      header :: ((parameterLines (declaredIn style definitions)).map Text.joinLines
        ++ definitions.map (·.text)) := by
  have hheader : Text.joinLines [header] = header := String.intercalate_singleton
  have htexts : (definitions.map (·.closedLines)).map Text.joinLines =
      definitions.map (·.text) := by
    rw [List.map_map]
    exact List.map_congr_left fun d _ => d.text_eq_joinLines.symm
  rw [sectionLines, List.map_cons, List.map_append, hheader, htexts]

/-- The sections of a program are their lines. -/
theorem sections_eq_map (style : Style) (definitions : List Definition) :
    sections style definitions = (sectionLines style definitions).map Text.joinLines := by
  rw [map_joinLines_sectionLines]
  cases style with
  | resolved => rfl
  | parameterized => rw [sections, toList_parameterSection?, declaredIn]

/-! ## Reading the text of a program -/

/-- Declarations are written on lines that are not empty. -/
theorem opens_of_mem_declarationLines {ds : List Declared} :
    ∀ line ∈ declarationLines ds, Opens ["  "] line := by
  have hend : ∀ b, Text.OneLine (declarationEnd b) := by decide
  induction ds with
  | nil => exact fun line hline => absurd hline List.not_mem_nil
  | cons d ds ih =>
    intro line hline
    rcases List.mem_cons.mp hline with rfl | hline
    · refine ⟨"  ", List.mem_cons_self, declarationText d ++ declarationEnd ds.isEmpty, ?_, ?_⟩
      · simp only [declarationText, Text.oneLine_append]
        exact ⟨⟨⟨d.parameter.oneLine_name, by decide⟩, d.value.oneLine_render⟩, hend _⟩
      · rw [String.append_assoc]
    · exact ih line hline

/-- The section that declares parameters is a paragraph. -/
theorem isParagraph_parameterLines {ds : List Declared} :
    ∀ lines ∈ parameterLines ds, Text.IsParagraph lines := by
  intro lines hlines
  cases ds with
  | nil => exact absurd hlines List.not_mem_nil
  | cons d ds =>
    obtain rfl := List.mem_singleton.mp hlines
    refine ⟨List.cons_ne_nil _ _, ?_, ?_⟩
    · refine List.forall_mem_cons.mpr ⟨by decide, fun line hline => ?_⟩
      exact (opens_of_mem_declarationLines line hline).oneLine (by decide)
    · rw [List.mem_cons, not_or]
      refine ⟨by decide, fun hline => ?_⟩
      exact (opens_of_mem_declarationLines "" hline).ne_empty (by decide) rfl

/-- Every section of a program is a paragraph. -/
theorem isParagraph_of_mem_sectionLines {style : Style} {definitions : List Definition} :
    ∀ lines ∈ sectionLines style definitions, Text.IsParagraph lines := by
  intro lines hlines
  simp only [sectionLines, List.mem_cons, List.mem_append, List.mem_map] at hlines
  rcases hlines with rfl | hlines | ⟨d, -, rfl⟩
  · exact ⟨List.cons_ne_nil _ _, by decide, by decide⟩
  · exact isParagraph_parameterLines lines hlines
  · exact d.isParagraph_closedLines

/-- **Sections**: between the empty lines of a program stand its sections, and behind the last of
them nothing. -/
theorem paragraphs_text (style : Style) (definitions : List Definition) :
    Text.paragraphs (text style definitions) = sectionLines style definitions ++ [[]] := by
  rw [text, sections_eq_map]
  exact Text.paragraphs_intercalate isParagraph_of_mem_sectionLines (List.cons_ne_nil _ _)

/-- The first line of a paragraph begins in this way. -/
def beginsWith (opening : String) (lines : List String) : Bool :=
  lines.head?.any fun line => decide (Text.Begins opening line)

/-- What a definition begins with. -/
def blockOpening : String := "DEFINE LAZY "

/-- The definitions in the text of a program. -/
def blocks (text : String) : List String :=
  ((Text.paragraphs text).filter (beginsWith blockOpening)).map Text.joinLines

/-- The lines that declare parameters in the text of a program. -/
def declarationPart (text : String) : List String :=
  ((Text.paragraphs text).filter (beginsWith parameterHead)).flatMap List.tail

/-- The text of a program declares these parameters, in this order. -/
def Declares (text : String) (declared : List Declared) : Prop :=
  declarationLines declared = declarationPart text

/-- The lines of a definition begin as a definition does. -/
theorem beginsWith_closedLines (opening : String) (d : Definition)
    (hparts : ¬ Text.Begins opening blockOpening ∧ ¬ Text.Begins blockOpening opening) :
    beginsWith blockOpening d.closedLines = true ∧ beginsWith opening d.closedLines = false := by
  have hline : d.closedLines.head? =
      some (blockOpening ++ (Text.quoteIdentifier d.name ++ " AS")) := by
    rw [← String.append_assoc]
    rfl
  rw [beginsWith, beginsWith, hline]
  refine ⟨decide_eq_true ⟨_, rfl⟩, decide_eq_false ?_⟩
  exact Text.not_begins_append hparts.1 hparts.2 _

/-- The section that declares parameters begins as its first line does. -/
theorem beginsWith_of_mem_parameterLines (opening : String) {ds : List Declared} :
    ∀ lines ∈ parameterLines ds,
      beginsWith opening lines = decide (Text.Begins opening parameterHead) := by
  intro lines hlines
  cases ds with
  | nil => exact absurd hlines List.not_mem_nil
  | cons d ds =>
    obtain rfl := List.mem_singleton.mp hlines
    rfl

/-- What begins as the header does not is found among the sections behind it. -/
theorem filter_paragraphs_text {opening : String} (hheader : beginsWith opening [header] = false)
    (style : Style) (definitions : List Definition) :
    (Text.paragraphs (text style definitions)).filter (beginsWith opening) =
      (parameterLines (declaredIn style definitions)).filter (beginsWith opening) ++
        (definitions.map (·.closedLines)).filter (beginsWith opening) := by
  rw [paragraphs_text, sectionLines, List.filter_append,
    List.filter_cons_of_neg (by rw [hheader]; decide), List.filter_append]
  exact List.append_nil _

/-- **Definitions**: the blocks of a program are the texts of its definitions. -/
theorem blocks_text (style : Style) (definitions : List Definition) :
    blocks (text style definitions) = definitions.map (·.text) := by
  have hparameters : (parameterLines (declaredIn style definitions)).filter
      (beginsWith blockOpening) = [] := by
    refine List.filter_eq_nil_iff.mpr fun lines hlines => ?_
    rw [beginsWith_of_mem_parameterLines blockOpening lines hlines]
    decide
  have hblocks : (definitions.map (·.closedLines)).filter (beginsWith blockOpening) =
      definitions.map (·.closedLines) := by
    refine List.filter_eq_self.mpr fun lines hlines => ?_
    obtain ⟨d, -, rfl⟩ := List.mem_map.mp hlines
    exact (beginsWith_closedLines parameterHead d (by decide)).1
  rw [blocks, filter_paragraphs_text (by decide), hparameters, hblocks, List.nil_append,
    List.map_map]
  exact List.map_congr_left fun d _ => d.text_eq_joinLines.symm

/-- The lines that declare parameters are those of what the program declares. -/
theorem declarationPart_text (style : Style) (definitions : List Definition) :
    declarationPart (text style definitions) = declarationLines (declaredIn style definitions) := by
  have hparameters : (parameterLines (declaredIn style definitions)).filter
      (beginsWith parameterHead) = parameterLines (declaredIn style definitions) := by
    refine List.filter_eq_self.mpr fun lines hlines => ?_
    rw [beginsWith_of_mem_parameterLines parameterHead lines hlines]
    decide
  have hblocks : (definitions.map (·.closedLines)).filter (beginsWith parameterHead) = [] := by
    refine List.filter_eq_nil_iff.mpr fun lines hlines => ?_
    obtain ⟨d, -, rfl⟩ := List.mem_map.mp hlines
    rw [(beginsWith_closedLines parameterHead d (by decide)).2]
    decide
  rw [declarationPart, filter_paragraphs_text (by decide), hparameters, hblocks, List.append_nil]
  cases declaredIn style definitions with
  | nil => rfl
  | cons d ds => exact List.append_nil _

/-- **Declarations**: a program declares what it does in one way only. -/
theorem declares_text_iff {style : Style} {definitions : List Definition}
    {declared : List Declared} :
    Declares (text style definitions) declared ↔ declared = declaredIn style definitions := by
  rw [Declares, declarationPart_text]
  exact ⟨declarationLines_inj, congrArg declarationLines⟩

end Program

end CaptureIngest
