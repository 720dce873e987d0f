import CaptureIngest.Proofs.Definition.Lines
import CaptureIngest.Proofs.Definition.Unambiguous

/-!
# What the text of a definition means

The text of a definition is read in two parts: the lines that name its source, and the frame around
them, which is the first two lines and everything from the encoding clause on.

* `sourceLines text`, `frameLines text`: the two parts of a text.
* `Means text values m`, `Refers text p`: what the source lines of a text mean under parameter
  values, and the parameters they refer to, as they are read.
* **Parts** (`sourceLines_text`, `frameLines_text`): the source lines of a definition are those of
  its clause, and its frame does not depend on source or style.
* **Meaning** (`means_text_iff`, `refers_text_iff`): a text is read in one way only, so it means what
  its clause means and refers to what its clause refers to.
-/

namespace CaptureIngest.Definition

/-! ## The parts of a text -/

/-- A line does not begin an encoding clause. -/
def isBeforeEncoding (line : String) : Bool :=
  decide (¬ Text.Begins encodingOpening line)

/-- The lines that name the source: behind the first two, in front of the encoding clause. -/
def sourceLines (text : String) : List String :=
  ((Text.splitLines text).drop 2).takeWhile isBeforeEncoding

/-- The lines around those that name the source. -/
def frameLines (text : String) : List String :=
  (Text.splitLines text).take 2 ++
    ((Text.splitLines text).drop 2).dropWhile isBeforeEncoding

/-- The lines of the text behind those that name the source. -/
def behindLines (d : Definition) : List String :=
  encodingLines d.key.encoding ++ FieldList.lines d.schema.fields ++ closingLines

/-- The lines of the text: two lines, the source and what stands behind it. -/
theorem splitLines_text_eq (d : Definition) :
    Text.splitLines d.text = headLines d.name ++ (d.clause.lines ++ d.behindLines) := by
  simp only [splitLines_text, closedLines, frontLines, behindLines, List.append_assoc]

/-- No line of a source clause begins an encoding clause. -/
theorem isBeforeEncoding_of_mem_lines {c : Clause} : ∀ line ∈ c.lines, isBeforeEncoding line := by
  intro line hline
  exact decide_eq_true ((Clause.opens_of_mem_lines line hline).not_begins (by decide))

/-- What stands behind the source begins with an encoding clause. -/
theorem exists_behindLines_eq (d : Definition) : ∃ first rest,
    d.behindLines = first :: rest ∧ ¬ isBeforeEncoding first = true := by
  obtain ⟨first, rest, heq, hfirst, -⟩ := exists_encodingLines_eq d.key.encoding
  refine ⟨first, rest ++ FieldList.lines d.schema.fields ++ closingLines, ?_, ?_⟩
  · rw [behindLines, heq, List.cons_append, List.cons_append]
  · simpa [isBeforeEncoding] using hfirst

/-- The lines that name the source are those of the clause. -/
theorem sourceLines_text (d : Definition) : sourceLines d.text = d.clause.lines := by
  obtain ⟨first, rest, heq, hfirst⟩ := d.exists_behindLines_eq
  have hdrop : (Text.splitLines d.text).drop 2 = d.clause.lines ++ d.behindLines := by
    rw [splitLines_text_eq]
    rfl
  rw [sourceLines, hdrop, List.takeWhile_append_of_pos isBeforeEncoding_of_mem_lines, heq,
    List.takeWhile_cons_of_neg hfirst, List.append_nil]

/-- The lines around the source are those of the name and those behind the source. -/
theorem frameLines_text (d : Definition) :
    frameLines d.text = headLines d.name ++ d.behindLines := by
  obtain ⟨first, rest, heq, hfirst⟩ := d.exists_behindLines_eq
  have hdrop : (Text.splitLines d.text).drop 2 = d.clause.lines ++ d.behindLines := by
    rw [splitLines_text_eq]
    rfl
  have htake : (Text.splitLines d.text).take 2 = headLines d.name := by
    rw [splitLines_text_eq]
    rfl
  rw [frameLines, hdrop, htake, List.dropWhile_append_of_pos isBeforeEncoding_of_mem_lines, heq,
    List.dropWhile_cons_of_neg hfirst]

/-! ## Meaning -/

/-- The source lines of a text mean `m`: they are those of a clause that means it. -/
def Means (text : String) (values : ParameterValues) (m : Clause.Meaning) : Prop :=
  ∃ c : Clause, c.lines = sourceLines text ∧ c.eval? values = some m

/-- The source lines of a text refer to a parameter: they are those of a clause that does. -/
def Refers (text : String) (p : Parameter) : Prop :=
  ∃ c : Clause, c.lines = sourceLines text ∧ p ∈ c.parameters

/-- The text of a definition means what its clause means, and nothing else. -/
theorem means_text_iff {d : Definition} {values : ParameterValues} {m : Clause.Meaning} :
    Means d.text values m ↔ d.clause.eval? values = some m := by
  unfold Means
  rw [sourceLines_text]
  constructor
  · rintro ⟨c, hlines, hmeans⟩
    rw [← (Clause.same_of_lines hlines).eval_eq values]
    exact hmeans
  · intro h
    exact ⟨d.clause, rfl, h⟩

/-- The text of a definition refers to what its clause refers to, and to nothing else. -/
theorem refers_text_iff {d : Definition} {p : Parameter} :
    Refers d.text p ↔ p ∈ d.clause.parameters := by
  unfold Refers
  rw [sourceLines_text]
  constructor
  · rintro ⟨c, hlines, hrefers⟩
    rw [← (Clause.same_of_lines hlines).parameters_eq]
    exact hrefers
  · intro h
    exact ⟨d.clause, rfl, h⟩

end CaptureIngest.Definition
