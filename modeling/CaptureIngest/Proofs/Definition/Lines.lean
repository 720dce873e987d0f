import CaptureIngest.Definition
import CaptureIngest.Proofs.Definition.FieldList

/-!
# The lines of a definition

The text of a definition is taken apart into the lines that it was joined from. Between them the
field list can be found again by anyone who knows how the clauses around it are written.

* **Openings** (`Opens`): each line in front of the encoding clause is one of a few openings with a
  text of one line behind it, whatever the strings of the source hold
  (`opens_of_mem_frontLines`); so is each line of a field list (`opens_of_mem_fieldLines`).
* **One line each** (`oneLine_of_mem_closedLines`): no line of a definition holds a line feed, so
  `splitLines_text` gives back the lines. None is empty either (`isParagraph_closedLines`).
* **The encoding clause is unmistakable** (`append_encodingLines_inj`): no other line begins as
  it does, so it cuts the lines of a definition in one way only.
* **The field list reads back** (`fieldPart_text`): exactly one run of lines stands between the
  encoding clause and the window clause. It has one line for each field, and as a layout text it
  gives the fields without their notes.
-/

namespace CaptureIngest

/-! ## One line each -/

/-- The names of parameters are of one line. -/
theorem Parameter.oneLine_name (p : Parameter) : Text.OneLine p.name := by
  have table : ∀ p ∈ all, Text.OneLine p.name := by decide
  exact table p p.mem_all

/-- An expression is written on one line, whatever its literals hold. -/
theorem TextExpr.oneLine_render (e : TextExpr) : Text.OneLine e.render := by
  induction e with
  | literal s => exact Text.oneLine_quoteString s
  | parameter p => exact p.oneLine_name
  | append a b iha ihb =>
    simp only [render, Text.oneLine_append]
    exact ⟨⟨iha, by decide⟩, ihb⟩
  | ifThenElse p yes no ihyes ihno =>
    simp only [render, Text.oneLine_append]
    exact ⟨⟨⟨⟨⟨⟨by decide, p.oneLine_name⟩, by decide⟩, ihyes⟩, by decide⟩, ihno⟩, by decide⟩

/-- A field is written on one line. -/
theorem Field.oneLine_render {f : Field} (hf : Text.isPlainIdentifier f.name = true) :
    Text.OneLine f.render := by
  have hname := Text.oneLine_of_isPlainIdentifier hf
  have hkind := Text.oneLine_of_isPlainIdentifier f.kind.isPlainIdentifier_name
  have hmark : Text.OneLine (if f.nullable then "?" else "") := by
    split <;> decide
  have hunit : ∀ m : Measure, Text.OneLine (" " ++ m.braced) := by
    intro m
    cases m <;> decide
  simp only [render, typeText, Text.oneLine_append]
  refine ⟨⟨⟨hname, by decide⟩, hkind, hmark⟩, ?_⟩
  cases f.measure with
  | none => decide
  | some m => exact hunit m

/-- The field list of a schema is read as the schema's fields without their notes. -/
theorem Schema.readFields_fieldLines (s : Schema) :
    Layout.readFields (Text.joinLines (FieldList.lines s.fields)) =
      .ok (s.fields.map Field.withoutNote) :=
  FieldList.readFields_lines s.layout.fields_ne_nil fun _ hf => s.layout.isPlainIdentifier_name hf

/-! ## How the lines begin -/

/-- A line is one of these openings with a text of one line behind it. -/
def Opens (openings : List String) (line : String) : Prop :=
  ∃ o ∈ openings, ∃ rest, Text.OneLine rest ∧ line = o ++ rest

/-- A line that opens with a text of one line is of one line. -/
theorem Opens.oneLine {openings : List String} {line : String} (h : Opens openings line)
    (hone : ∀ o ∈ openings, Text.OneLine o) : Text.OneLine line := by
  obtain ⟨o, ho, rest, hrest, rfl⟩ := h
  exact Text.oneLine_append.mpr ⟨hone o ho, hrest⟩

/-- A line that opens with a text is not empty. -/
theorem Opens.ne_empty {openings : List String} {line : String} (h : Opens openings line)
    (hne : ∀ o ∈ openings, o ≠ "") : line ≠ "" := by
  obtain ⟨o, ho, rest, -, rfl⟩ := h
  rw [ne_eq, String.append_eq_empty_iff]
  exact fun hempty => hne o ho hempty.1

/-- A line does not begin with what parts from all its openings. -/
theorem Opens.not_begins {openings : List String} {line p : String} (h : Opens openings line)
    (hparts : ∀ o ∈ openings, ¬ Text.Begins p o ∧ ¬ Text.Begins o p) : ¬ Text.Begins p line := by
  obtain ⟨o, ho, rest, -, rfl⟩ := h
  exact Text.not_begins_append (hparts o ho).1 (hparts o ho).2 rest

/-- Openings may be given among others. -/
theorem Opens.mono {openings more : List String} {line : String} (h : Opens openings line)
    (hmore : openings ⊆ more) : Opens more line := by
  obtain ⟨o, ho, rest⟩ := h
  exact ⟨o, hmore ho, rest⟩

/-- What the lines of a source clause begin with. -/
def clauseOpenings : List String :=
  ["    FILES ", "      PREPROCESSED WITH ", "      THEN DELETE", "      THEN DELETE IF ",
   "    KAFKA TOPIC ", "    WITH OPTIONS", "      \"metadata.broker.list\" = ",
   "      \"max.partition.fetch.bytes\" = "]

/-- What the lines in front of an encoding clause begin with. -/
def frontOpenings : List String :=
  "DEFINE LAZY " :: "  READ FROM" :: clauseOpenings

/-- What the lines of a field list begin with. -/
def fieldOpenings : List String :=
  ["    (", "     "]

/-- What an encoding clause begins with. -/
def encodingOpening : String := "    AS "

/-- The lines of a command open as the lines of a clause do. -/
theorem Clause.opens_of_mem_preprocessorLines {preprocessor : Option TextExpr} :
    ∀ line ∈ preprocessorLines preprocessor, Opens clauseOpenings line := by
  intro line hline
  cases preprocessor with
  | none => exact absurd hline List.not_mem_nil
  | some e =>
    obtain rfl := List.mem_singleton.mp hline
    exact ⟨"      PREPROCESSED WITH ", by decide, _, e.oneLine_render, rfl⟩

/-- The line of a deletion opens as the lines of a clause do. -/
theorem Clause.opens_of_mem_deletionLines {deletion : Deletion} :
    ∀ line ∈ deletionLines deletion, Opens clauseOpenings line := by
  intro line hline
  cases deletion with
  | never => exact absurd hline List.not_mem_nil
  | always =>
    obtain rfl := List.mem_singleton.mp hline
    exact ⟨"      THEN DELETE", by decide, "", by decide, rfl⟩
  | asParameter p =>
    obtain rfl := List.mem_singleton.mp hline
    exact ⟨"      THEN DELETE IF ", by decide, _, p.oneLine_name, rfl⟩

/-- The lines of the options of a topic open as the lines of a clause do. -/
theorem Clause.opens_of_mem_optionLines {broker : TextExpr} {fetchLimit : Option TextExpr} :
    ∀ line ∈ optionLines broker fetchLimit, Opens clauseOpenings line := by
  intro line hline
  cases fetchLimit with
  | none =>
    obtain rfl := List.mem_singleton.mp hline
    exact ⟨_, by decide, _, broker.oneLine_render, rfl⟩
  | some limit =>
    rcases List.mem_pair.mp hline with rfl | rfl
    · refine ⟨"      \"metadata.broker.list\" = ", by decide, broker.render ++ ",", ?_, ?_⟩
      · exact Text.oneLine_append.mpr ⟨broker.oneLine_render, by decide⟩
      · rw [String.append_assoc]
    · exact ⟨"      \"max.partition.fetch.bytes\" = ", by decide, _, limit.oneLine_render, rfl⟩

/-- The lines of a clause, whatever its strings hold: an opening and a text of one line. -/
theorem Clause.opens_of_mem_lines {c : Clause} : ∀ line ∈ c.lines, Opens clauseOpenings line := by
  intro line hline
  cases c with
  | files glob preprocessor deletion =>
    simp only [lines, List.mem_append, List.mem_singleton] at hline
    rcases hline with (rfl | hline) | hline
    · exact ⟨"    FILES ", by decide, _, glob.oneLine_render, rfl⟩
    · exact opens_of_mem_preprocessorLines line hline
    · exact opens_of_mem_deletionLines line hline
  | topic name broker fetchLimit =>
    simp only [lines, List.cons_append, List.nil_append, List.mem_cons] at hline
    rcases hline with rfl | rfl | hline
    · exact ⟨"    KAFKA TOPIC ", by decide, _, Text.oneLine_quoteString name, rfl⟩
    · exact ⟨"    WITH OPTIONS", by decide, "", by decide, rfl⟩
    · exact opens_of_mem_optionLines line hline

/-- The line of a field: its indentation and a text of one line. -/
theorem FieldList.opens_line {f : Field} (hf : Text.isPlainIdentifier f.name = true)
    (position : Nat) (isLast : Bool) : Opens fieldOpenings (line position isLast f) := by
  have hcomment : ∀ s, Text.OneLine (comment s position) := by
    intro s
    unfold comment
    split
    · simp only [Text.oneLine_append]
      exact ⟨⟨Text.oneLine_spaces _, by decide⟩, Text.oneLine_repr position⟩
    · decide
  have hclose : Text.OneLine (if isLast then ")" else ",") := by
    split <;> decide
  refine ⟨if position = 1 then "    (" else "     ", ?_, f.render ++ ((if isLast then ")" else ",")
    ++ comment (bareLine position isLast f) position), ?_, ?_⟩
  · split <;> decide
  · simp only [Text.oneLine_append]
    exact ⟨Field.oneLine_render hf, hclose, hcomment _⟩
  · simp only [line, bareLine, String.append_assoc]

/-- The lines of a field list: their indentation and a text of one line. -/
theorem FieldList.opens_of_mem_linesFrom {fields : List Field}
    (hnames : ∀ f ∈ fields, Text.isPlainIdentifier f.name = true) (position : Nat) :
    ∀ line ∈ linesFrom position fields, Opens fieldOpenings line := by
  induction fields generalizing position with
  | nil => exact fun line hline => absurd hline List.not_mem_nil
  | cons f fields ih =>
    intro line hline
    rw [linesFrom_cons] at hline
    rcases List.mem_cons.mp hline with rfl | hline
    · exact opens_line (hnames f List.mem_cons_self) position fields.isEmpty
    · exact ih (fun g hg => hnames g (List.mem_cons_of_mem f hg)) (position + 1) line hline

/-- An encoding clause begins as no other of its lines does. -/
theorem exists_encodingLines_eq (e : Encoding) : ∃ first rest,
    Definition.encodingLines e = first :: rest ∧ Text.Begins encodingOpening first ∧
      ∀ line ∈ rest, ¬ Text.Begins encodingOpening line := by
  cases e with
  | csv => exact ⟨_, _, rfl, by decide, by decide⟩
  | rowBinary => exact ⟨_, _, rfl, by decide, by decide⟩

namespace Definition

/-! ## The lines of the text -/

/-- The lines in front of the encoding clause. -/
def frontLines (d : Definition) : List String :=
  headLines d.name ++ d.clause.lines

/-- The lines of the window clause, as they end a definition. -/
def closingLines : List String :=
  ["  EVENT STARTING AT capture_begin * 1e-6", "    AND STOPPING AT capture_end * 1e-6;"]

/-- The lines of a definition with the semicolon at their end. -/
def closedLines (d : Definition) : List String :=
  d.frontLines ++ (encodingLines d.key.encoding ++ FieldList.lines d.schema.fields) ++ closingLines

/-- The text of a definition is its lines with the semicolon at their end. -/
theorem text_eq_joinLines (d : Definition) : d.text = Text.joinLines d.closedLines := by
  have hwindow : windowLines.map ("  " ++ ·)
      = ["  EVENT STARTING AT capture_begin * 1e-6"]
        ++ ["    AND STOPPING AT capture_end * 1e-6"] := by
    decide
  have hlines : d.lines = (d.frontLines ++
      (encodingLines d.key.encoding ++ FieldList.lines d.schema.fields) ++
      ["  EVENT STARTING AT capture_begin * 1e-6"]) ++
      ["    AND STOPPING AT capture_end * 1e-6"] := by
    rw [lines, hwindow, frontLines]
    simp only [List.append_assoc]
  rw [text, hlines, Text.joinLines_append_singleton, List.append_assoc]
  rfl

/-- The lines in front of the encoding clause: an opening and a text of one line. -/
theorem opens_of_mem_frontLines {d : Definition} :
    ∀ line ∈ d.frontLines, Opens frontOpenings line := by
  intro line hline
  rcases List.mem_append.mp hline with hline | hline
  · rcases List.mem_pair.mp hline with rfl | rfl
    · refine ⟨"DEFINE LAZY ", by decide, Text.quoteIdentifier d.name ++ " AS", ?_, ?_⟩
      · exact Text.oneLine_append.mpr ⟨Text.oneLine_quoteIdentifier d.name, by decide⟩
      · rw [String.append_assoc]
    · exact ⟨"  READ FROM", by decide, "", by decide, rfl⟩
  · refine (Clause.opens_of_mem_lines line hline).mono fun o ho => ?_
    exact List.mem_cons_of_mem _ (List.mem_cons_of_mem _ ho)

/-- The lines of the field list: their indentation and a text of one line. -/
theorem opens_of_mem_fieldLines {d : Definition} :
    ∀ line ∈ FieldList.lines d.schema.fields, Opens fieldOpenings line :=
  FieldList.opens_of_mem_linesFrom (fun _ hf => d.schema.layout.isPlainIdentifier_name hf) 1

/-- The lines of a definition are of one line each. -/
theorem oneLine_of_mem_closedLines {d : Definition} :
    ∀ line ∈ d.closedLines, Text.OneLine line := by
  have hencoding : ∀ e, ∀ line ∈ encodingLines e, Text.OneLine line := by
    intro e
    cases e <;> decide
  have hclosing : ∀ line ∈ closingLines, Text.OneLine line := by decide
  intro line hline
  simp only [closedLines, List.mem_append] at hline
  rcases hline with (hline | hline | hline) | hline
  · exact (opens_of_mem_frontLines line hline).oneLine (by decide)
  · exact hencoding d.key.encoding line hline
  · exact (opens_of_mem_fieldLines line hline).oneLine (by decide)
  · exact hclosing line hline

/-- The lines of a definition are a paragraph: no line is empty. -/
theorem isParagraph_closedLines (d : Definition) : Text.IsParagraph d.closedLines where
  ne_nil := by simp [closedLines, closingLines]
  oneLine := oneLine_of_mem_closedLines
  ne_empty := by
    have hencoding : ∀ e, "" ∉ encodingLines e := by
      intro e
      cases e <;> decide
    simp only [closedLines, List.mem_append, not_or]
    refine ⟨⟨fun hline => ?_, hencoding d.key.encoding, fun hline => ?_⟩, by decide⟩
    · exact (opens_of_mem_frontLines "" hline).ne_empty (by decide) rfl
    · exact (opens_of_mem_fieldLines "" hline).ne_empty (by decide) rfl

/-- The lines of the text are the lines it was joined from. -/
theorem splitLines_text (d : Definition) : Text.splitLines d.text = d.closedLines := by
  rw [text_eq_joinLines]
  exact Text.splitLines_joinLines oneLine_of_mem_closedLines d.isParagraph_closedLines.ne_nil

/-! ## Finding the field list -/

/-- The encoding clause cuts the lines of a definition in one way only. -/
theorem append_encodingLines_inj {d : Definition} {front body : List String}
    (h : d.frontLines ++ (encodingLines d.key.encoding ++ FieldList.lines d.schema.fields) =
      front ++ (encodingLines d.key.encoding ++ body)) :
    d.frontLines = front ∧ FieldList.lines d.schema.fields = body := by
  obtain ⟨first, rest, heq, hfirst, hrest⟩ := exists_encodingLines_eq d.key.encoding
  rw [heq, List.cons_append, List.cons_append] at h
  have hfront : first ∉ d.frontLines := by
    intro hmem
    exact (opens_of_mem_frontLines first hmem).not_begins (by decide) hfirst
  have hbehind : first ∉ rest ++ FieldList.lines d.schema.fields := by
    intro hmem
    rcases List.mem_append.mp hmem with hmem | hmem
    · exact hrest first hmem hfirst
    · exact (opens_of_mem_fieldLines first hmem).not_begins (by decide) hfirst
  obtain ⟨hfront, -, hbody⟩ := (List.append_cons_inj_of_notMem hfront hbehind).mp h
  exact ⟨hfront, List.append_cancel_left hbody⟩

/-- These lines stand in a definition's text between its encoding clause and its window clause. -/
def IsFieldPart (text : String) (encoding : Encoding) (body : List String) : Prop :=
  ∃ front, Text.splitLines text = front ++ (encodingLines encoding ++ body) ++ closingLines

/-- The lines between the encoding clause and the window clause are those of the field list. -/
theorem isFieldPart_iff (d : Definition) (body : List String) :
    IsFieldPart d.text d.key.encoding body ↔ body = FieldList.lines d.schema.fields := by
  rw [IsFieldPart, splitLines_text, closedLines]
  constructor
  · rintro ⟨front, h⟩
    exact (append_encodingLines_inj (List.append_cancel_right h)).2.symm
  · rintro rfl
    exact ⟨d.frontLines, rfl⟩

/-- **The field list reads back.** In the text of any definition, whatever its source and style,
one run of lines and no other stands between the encoding clause and the window clause. It has a
line for each field, and joined it is a layout text of the fields without their notes. -/
theorem fieldPart_text (d : Definition) :
    ∃ body, (∀ other, IsFieldPart d.text d.key.encoding other ↔ other = body) ∧
      body.length = d.schema.fields.length ∧
      Layout.readFields (Text.joinLines body) = .ok (d.schema.fields.map Field.withoutNote) :=
  ⟨FieldList.lines d.schema.fields, d.isFieldPart_iff, FieldList.length_lines d.schema.fields,
    d.schema.readFields_fieldLines⟩

end Definition

end CaptureIngest
