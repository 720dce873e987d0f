import CaptureIngest.Definition.FieldList
import CaptureIngest.Proofs.Layout.Check
import CaptureIngest.Proofs.Layout.Reading
import CaptureIngest.Proofs.Text.Quoted

/-!
# Field lists read back

The field list of a definition is itself a layout text, numbers in comments included. It is shown
to be one in the grammar, field by field and line by line, so the reader of layout texts need not
be followed.

* `Field.declaration f`: the declaration that writes the field `f`.
* **One field** (`declares_render`): a rendered field is its declaration, in front of a comma or a
  closing parenthesis.
* **The whole list** (`isLayoutOf_lines`): the joined lines of a field list are a layout of the
  declarations of its fields. The induction is on the fields that are left; what it carries is
  that a list begins where its first field does (`exists_declares_linesFrom`).
* **Reading back** (`readFields_lines`): reading the lines gives the fields without their notes.
-/

namespace CaptureIngest

/-- No unit has white space at the ends of its name. -/
theorem Measure.trim_name (m : Measure) : Text.trim m.name = m.name := by
  cases m <;> decide

/-- No unit has a closing brace or a line feed in its name. -/
theorem Measure.ne_of_mem_name (m : Measure) : ∀ c ∈ m.name.toList, c ≠ '\x7d' ∧ c ≠ '\n' := by
  have hbrace : '\x7d' ∉ m.name.toList := by
    cases m <;> decide
  have hfeed : '\n' ∉ m.name.toList := by
    cases m <;> decide
  intro c hc
  exact ⟨ne_of_mem_of_not_mem hc hbrace, ne_of_mem_of_not_mem hc hfeed⟩

/-- The names of types are made as names are. -/
theorem Kind.isPlainIdentifier_name (k : Kind) : Text.isPlainIdentifier k.name = true := by
  cases k <;> decide

namespace Field

/-! ## One field -/

/-- The declaration that writes a field. -/
def declaration (f : Field) : Declaration :=
  ⟨f.name, f.kind.name, f.nullable, f.measure.map Measure.name⟩

/-- The declaration that writes a field says the field, but for its note. -/
theorem denotes_declaration (f : Field) : f.declaration.Denotes f.withoutNote := by
  refine ⟨rfl, rfl, rfl, ?_, rfl⟩
  show f.measure.map Measure.name = (f.measure.map Measure.name).map Text.trim
  rw [Option.map_map]
  exact congrArg (f.measure.map ·) (funext fun m => (Measure.trim_name m).symm)

/-- The question mark of a field, if it has one. -/
def markChars : Bool → List Char
  | true => ['?']
  | false => []

/-- The unit of a field in braces and behind a space, if it has one. -/
def unitChars : Option Measure → List Char
  | none => []
  | some m => ' ' :: '\x7b' :: (m.name.toList ++ ['\x7d'])

/-- The parts of a rendered field. -/
theorem toList_render (f : Field) : f.render.toList =
    f.name.toList ++ ' ' :: (f.kind.name.toList ++ (markChars f.nullable ++ unitChars f.measure)) := by
  cases hn : f.nullable <;> cases hm : f.measure <;>
    simp [render, typeText, Measure.braced, markChars, unitChars, hn, hm]

/-- Behind a type nothing continues its name. -/
theorem endsName_behind_type (f : Field) {rest : List Char}
    (hrest : ∀ c ∈ rest.head?, c = ',' ∨ c = ')') :
    Layout.EndsName (markChars f.nullable ++ (unitChars f.measure ++ rest)) := by
  intro c hc
  cases hn : f.nullable with
  | true =>
    rw [hn] at hc
    obtain rfl : '?' = c := by simpa [markChars] using hc
    show Text.isNameChar '?' = false
    decide
  | false =>
    rw [hn] at hc
    cases hm : f.measure with
    | some m =>
      rw [hm] at hc
      obtain rfl : ' ' = c := by simpa [markChars, unitChars] using hc
      show Text.isNameChar ' ' = false
      decide
    | none =>
      rw [hm] at hc
      rcases hrest c hc with rfl | rfl
      · show Text.isNameChar ',' = false
        decide
      · show Text.isNameChar ')' = false
        decide

/-- A plain identifier is a name in front of what does not continue it. -/
theorem name_of_isPlainIdentifier {s : String} (hs : Text.isPlainIdentifier s = true)
    {rest : List Char} (hrest : Layout.EndsName rest) : Layout.Name s (s.toList ++ rest) rest := by
  obtain ⟨hne, hchars⟩ := Text.isNameChar_of_isPlainIdentifier hs
  exact .run hne hchars hrest

/-- A rendered field is its declaration, in front of a comma or a closing parenthesis. -/
theorem declares_render {f : Field} (hf : Text.isPlainIdentifier f.name = true) {rest : List Char}
    (hrest : ∀ c ∈ rest.head?, c = ',' ∨ c = ')') :
    Layout.Declares f.declaration (f.render.toList ++ rest) rest := by
  have hname : ∀ tail, Layout.Name f.name (f.name.toList ++ ' ' :: tail) (' ' :: tail) := by
    intro tail
    apply name_of_isPlainIdentifier hf
    rintro c ⟨⟩
    decide
  have htype := name_of_isPlainIdentifier f.kind.isPlainIdentifier_name
    (f.endsName_behind_type hrest)
  have hmark : Layout.Mark f.nullable (markChars f.nullable ++ (unitChars f.measure ++ rest))
      (unitChars f.measure ++ rest) := by
    cases f.nullable with
    | true => exact .mark
    | false => exact .none
  have hunit : Layout.UnitNote (f.measure.map Measure.name) (unitChars f.measure ++ rest) rest := by
    cases f.measure with
    | none => exact .none
    | some m =>
      have hchars : unitChars (some m) ++ rest
          = ' ' :: '\x7b' :: (m.name.toList ++ '\x7d' :: rest) := by
        simp [unitChars]
      rw [hchars]
      exact .braces (.space (by decide) .none) m.ne_of_mem_name
  rw [toList_render]
  simp only [List.append_assoc, List.cons_append]
  exact .parts (hname _) (by decide) .none htype hmark hunit

end Field

namespace FieldList

/-! ## Comments -/

/-- Spaces in front of blanks are blanks. -/
theorem blanks_spaces (n : Nat) {cs rest : List Char} (h : Layout.Blanks cs rest) :
    Layout.Blanks (List.replicate n ' ' ++ cs) rest := by
  induction n with
  | zero => exact h
  | succ n ih => exact .space (by decide) ih

/-- The comment of a line stands between the line and its end, and is blank. -/
theorem blanks_comment (line : String) (position : Nat) {cs rest : List Char}
    (hcs : Layout.EndsComment cs) (h : Layout.Blanks cs rest) :
    Layout.Blanks ((comment line position).toList ++ cs) rest := by
  unfold comment
  split
  · simp only [String.toList_append, Text.toList_spaces, List.append_assoc, Nat.toList_repr]
    have hbody : ∀ c ∈ ' ' :: Nat.toDigits 10 position, c ≠ '\n' ∧ c ≠ '\r' := by
      intro c hc
      rcases List.mem_cons.mp hc with rfl | hc
      · decide
      · have hdigit := Nat.isDigit_of_mem_toDigits (by decide) (by decide) hc
        constructor
        · rintro rfl
          exact absurd hdigit (by decide)
        · rintro rfl
          exact absurd hdigit (by decide)
    have hcomment : Layout.Blanks ('-' :: '-' :: ((' ' :: Nat.toDigits 10 position) ++ cs)) rest :=
      .comment hbody hcs h
    exact blanks_spaces _ hcomment
  · exact h

/-! ## Lines -/

/-- What a line of a field list begins with. -/
def opening (position : Nat) : List Char :=
  if position = 1 then "    (".toList else "     ".toList

/-- The parts of a line of a field list. -/
theorem toList_line (position : Nat) (isLast : Bool) (f : Field) :
    (line position isLast f).toList = opening position ++ (f.render.toList ++
      ((if isLast then ')' else ',') ::
        (comment (bareLine position isLast f) position).toList)) := by
  cases isLast <;> by_cases h : position = 1 <;>
    simp [line, bareLine, opening, h]

/-- The lines behind the first begin with spaces. -/
theorem opening_of_ne {position : Nat} (h : position ≠ 1) :
    opening position = List.replicate 5 ' ' := by
  rw [opening, if_neg h]
  decide

/-- A field list from a position on: behind the opening of its first line stand the declarations
of its fields, then the closing parenthesis and blanks. -/
theorem exists_declares_linesFrom {f : Field} {fields : List Field} {position : Nat}
    (hposition : position ≠ 0)
    (hnames : ∀ g ∈ f :: fields, Text.isPlainIdentifier g.name = true) :
    ∃ body afterFirst behind,
      (Text.joinLines (linesFrom position (f :: fields))).toList = opening position ++ body ∧
        Layout.Declares f.declaration body afterFirst ∧
        Layout.More (fields.map Field.declaration) afterFirst (')' :: behind) ∧
        Layout.Blanks behind [] := by
  induction fields generalizing f position with
  | nil =>
    refine ⟨_, _, _, ?_, Field.declares_render (hnames f List.mem_cons_self) ?_, .none,
      blanks_comment (bareLine position true f) position .over .none⟩
    · rw [linesFrom_cons, linesFrom_nil, Text.joinLines, String.intercalate_singleton,
        List.isEmpty_nil, toList_line, if_pos rfl, List.append_nil]
    · rintro c ⟨⟩
      exact .inr rfl
  | cons g fields ih =>
    obtain ⟨body, afterFirst, behind, htext, hdeclares, hmore, hbehind⟩ :=
      ih (show position + 1 ≠ 0 by omega) fun g' hg' => hnames g' (List.mem_cons_of_mem f hg')
    -- from the comma to the next field there are only a comment, the line end and spaces
    have hblanks : Layout.Blanks ((comment (bareLine position false f) position).toList ++
        '\n' :: (List.replicate 5 ' ' ++ body)) body :=
      blanks_comment _ _ .lineFeed (.space (by decide) (blanks_spaces 5 .none))
    refine ⟨_, _, behind, ?_, Field.declares_render (hnames f List.mem_cons_self) ?_,
      .next .none hblanks hdeclares hmore, hbehind⟩
    · rw [linesFrom_cons, Text.joinLines_cons (by simp), String.toList_append,
        String.toList_append, htext, opening_of_ne (by omega), toList_line]
      simp only [List.isEmpty_cons, Bool.false_eq_true, if_false, List.append_assoc,
        List.cons_append]
      rfl
    · rintro c ⟨⟩
      exact .inl rfl

/-! ## The whole list -/

/-- The joined lines of a field list are a layout of the declarations of its fields. -/
theorem isLayoutOf_lines {fields : List Field} (hne : fields ≠ [])
    (hnames : ∀ f ∈ fields, Text.isPlainIdentifier f.name = true) :
    Layout.IsLayoutOf (fields.map Field.declaration) (Text.joinLines (lines fields)).toList := by
  cases fields with
  | nil => exact absurd rfl hne
  | cons f fields =>
    obtain ⟨body, afterFirst, behind, htext, hdeclares, hmore, hbehind⟩ :=
      exists_declares_linesFrom Nat.one_ne_zero hnames
    have hopening : Layout.Blanks (opening 1 ++ body) ('(' :: body) :=
      blanks_spaces 4 .none
    rw [lines, htext]
    exact .inParentheses hopening .none (.some hdeclares hmore) .none hbehind

/-- The declarations of fields say the fields, but for their notes. -/
theorem forall₂_denotes_declaration (fields : List Field) :
    List.Forall₂ Declaration.Denotes (fields.map Field.declaration)
      (fields.map Field.withoutNote) := by
  induction fields with
  | nil => exact .nil
  | cons f fields ih => exact .cons f.denotes_declaration ih

/-- **Reading back**: the lines of a field list are read as its fields without their notes. -/
theorem readFields_lines {fields : List Field} (hne : fields ≠ [])
    (hnames : ∀ f ∈ fields, Text.isPlainIdentifier f.name = true) :
    Layout.readFields (Text.joinLines (lines fields)) = .ok (fields.map Field.withoutNote) := by
  rw [Layout.readFields_of_isLayoutOf (isLayoutOf_lines hne hnames) (by simpa using hne)]
  exact Declaration.toFields_eq_ok (forall₂_denotes_declaration fields)

end FieldList

end CaptureIngest
