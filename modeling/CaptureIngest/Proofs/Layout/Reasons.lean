import CaptureIngest.Layout
import CaptureIngest.Proofs.Layout.Reading
import CaptureIngest.Proofs.Text.Lines

/-!
# Reasons are told on one line

Whatever is in a layout text, the reason why it is refused is told on one line: what is quoted from
the text was cut out of one of its lines.

* **Declarations** (`Layout.isOneLine_of_isLayoutOf`): no part of a declaration goes beyond a line.
* **Checks** (`Layout.oneLine_message_of_check`): fields with names of one line are refused for a
  reason of one line.
* **Texts** (`Layout.oneLine_of_readFields`): so is a text, and the names of the fields that it gives
  are of one line.
-/

namespace CaptureIngest

/-- A text stays of one line when it is trimmed. -/
theorem Text.oneLine_trim {s : String} (h : OneLine s) : OneLine (trim s) := by
  intro hmem
  rw [trim, String.toList_ofList, trimmed, List.mem_reverse] at hmem
  have hfront := (List.dropWhile_suffix _).mem hmem
  exact h ((List.dropWhile_suffix _).mem (List.mem_reverse.mp hfront))

/-- The names of kinds are of one line. -/
theorem Kind.oneLine_name (k : Kind) : Text.OneLine k.name := by
  cases k <;> decide

/-- So are the types of fields. -/
theorem Field.oneLine_typeText (f : Field) : Text.OneLine f.typeText := by
  rw [typeText, Text.oneLine_append]
  refine ⟨f.kind.oneLine_name, ?_⟩
  cases f.nullable <;> decide

/-! ## Declarations -/

/-- No part of a declaration goes beyond a line. -/
structure Declaration.IsOneLine (d : Declaration) : Prop where
  /-- The name is of one line. -/
  name : Text.OneLine d.name
  /-- So is the type. -/
  typeName : Text.OneLine d.typeName
  /-- So is the unit. -/
  unitText : ∀ s, d.unitText? = some s → Text.OneLine s

namespace Layout

/-- A name of a layout text is of one line. -/
theorem Name.oneLine {s : String} {cs rest : List Char} (h : Name s cs rest) : Text.OneLine s := by
  cases h with
  | run _ hname _ => exact Text.oneLine_of_all hname (by decide)

/-- A unit in braces is of one line. -/
theorem UnitNote.oneLine {u : Option String} {cs rest : List Char} (h : UnitNote u cs rest) :
    ∀ s, u = some s → Text.OneLine s := by
  intro s hs
  cases h with
  | none => cases hs
  | braces _ hunit =>
    cases hs
    intro hmem
    exact (hunit '\n' hmem).2 rfl

/-- No declaration goes beyond a line. -/
theorem Declares.isOneLine {d : Declaration} {cs rest : List Char} (h : Declares d cs rest) :
    d.IsOneLine := by
  cases h with
  | parts hname _ _ htype _ hunit => exact ⟨hname.oneLine, htype.oneLine, hunit.oneLine⟩

/-- None of the declarations behind the first does. -/
theorem More.isOneLine {ds : List Declaration} {cs rest : List Char} (h : More ds cs rest) :
    ∀ d ∈ ds, d.IsOneLine := by
  induction h with
  | none => simp
  | next _ _ hdeclares _ ih => exact List.forall_mem_cons.mpr ⟨hdeclares.isOneLine, ih⟩

/-- None of the declarations of a list does. -/
theorem DeclaresAll.isOneLine {ds : List Declaration} {cs rest : List Char}
    (h : DeclaresAll ds cs rest) : ∀ d ∈ ds, d.IsOneLine := by
  cases h with
  | none => simp
  | some hdeclares hmore => exact List.forall_mem_cons.mpr ⟨hdeclares.isOneLine, hmore.isOneLine⟩

/-- **Declarations**: no declaration of a layout text goes beyond a line. -/
theorem isOneLine_of_isLayoutOf {ds : List Declaration} {cs : List Char} (h : IsLayoutOf ds cs) :
    ∀ d ∈ ds, d.IsOneLine := by
  cases h with
  | inParentheses _ _ hall _ _ => exact hall.isOneLine
  | bare _ hall _ => exact hall.isOneLine

end Layout

namespace Declaration

/-- A declaration without a line feed is refused for a reason of one line. -/
theorem Fault.oneLine_message {d : Declaration} {e : Defect} (h : d.Fault e) (hd : d.IsOneLine) :
    Text.OneLine e.message := by
  cases h with
  | type _ =>
    show Text.OneLine ("field '" ++ d.name ++ "' has unsupported type '" ++ d.typeName ++ "'")
    simp only [Text.oneLine_append]
    exact ⟨⟨⟨⟨by decide, hd.name⟩, by decide⟩, hd.typeName⟩, by decide⟩
  | @unit _ text _ hu _ =>
    have hunit := Text.oneLine_trim (hd.unitText _ hu)
    show Text.OneLine
      ("field '" ++ d.name ++ "' has unknown unit '\x7b" ++ Text.trim text ++ "\x7d'")
    simp only [Text.oneLine_append]
    exact ⟨⟨⟨⟨by decide, hd.name⟩, by decide⟩, hunit⟩, by decide⟩

/-- What declarations give, of declarations without line feeds: fields with names of one line, or a
reason of one line. -/
theorem oneLine_of_toFields {ds : List Declaration} (h : ∀ d ∈ ds, d.IsOneLine) :
    (∀ e, toFields ds = .error e → Text.OneLine e.message) ∧
      ∀ fs, toFields ds = .ok fs → ∀ f ∈ fs, Text.OneLine f.name := by
  induction ds with
  | nil => simp [toFields]
  | cons d ds ih =>
    obtain ⟨hd, hds⟩ := List.forall_mem_cons.mp h
    obtain ⟨herror, hok⟩ := ih hds
    rw [toFields]
    rcases toField_spec d with ⟨f, hf, hdenotes⟩ | ⟨e, he, hfault⟩
    · rw [hf]
      cases hrest : toFields ds with
      | error e =>
        refine ⟨?_, fun fs hfs => by cases hfs⟩
        rintro e' ⟨⟩
        exact herror e hrest
      | ok fs =>
        refine ⟨fun e he => (by cases he), ?_⟩
        rintro fs' ⟨⟩
        have hname : Text.OneLine f.name := by
          rw [hdenotes.name]
          exact hd.name
        exact List.forall_mem_cons.mpr ⟨hname, hok fs hrest⟩
    · rw [he]
      refine ⟨?_, fun fs hfs => by cases hfs⟩
      rintro e' ⟨⟩
      exact hfault.oneLine_message hd

end Declaration

/-! ## Checks -/

namespace Layout

/-- What stands where the reader stopped is told on one line. -/
theorem oneLine_message_unexpected (stop : List Char) : Text.OneLine (unexpected stop).message := by
  have hline : Text.OneLine (.ofList (stop.takeWhile (· != '\n'))) := by
    intro hmem
    rw [String.toList_ofList] at hmem
    have hne := List.all_eq_true.mp (List.all_takeWhile (p := (· != '\n'))) _ hmem
    simp at hne
  unfold unexpected
  split_ifs
  · decide
  · dsimp only
    split
    · decide
    · simp only [Unexpected.message, Text.oneLine_append]
      exact ⟨⟨by decide, Text.oneLine_trim hline⟩, by decide⟩

/-- A name that is refused is refused for a reason of one line. -/
theorem oneLine_message_of_nameDefect? {earlier : List String} {fields : List Field} {e : Defect}
    (hnames : ∀ f ∈ fields, Text.OneLine f.name) (h : nameDefect? earlier fields = some e) :
    Text.OneLine e.message := by
  induction fields generalizing earlier with
  | nil => cases h
  | cons f fields ih =>
    obtain ⟨hname, hrest⟩ := List.forall_mem_cons.mp hnames
    rw [nameDefect?] at h
    split_ifs at h
    · cases h
      show Text.OneLine ("'" ++ f.name ++ "' is not a valid field name")
      simp only [Text.oneLine_append]
      exact ⟨⟨by decide, hname⟩, by decide⟩
    · split at h
      · next i _ =>
        cases h
        show Text.OneLine
          ("field '" ++ f.name ++ "' is declared twice (positions " ++ Nat.repr (i + 1) ++ " and " ++
            Nat.repr (earlier.length + 1) ++ ")")
        simp only [Text.oneLine_append]
        exact ⟨⟨⟨⟨⟨⟨by decide, hname⟩, by decide⟩, Text.oneLine_repr _⟩, by decide⟩,
          Text.oneLine_repr _⟩, by decide⟩
      · exact ih hrest h

/-- A capture time that is refused is refused for a reason of one line. -/
theorem oneLine_message_of_timestampDefect? {name : String} {fields : List Field} {e : Defect}
    (hname : Text.OneLine name) (h : timestampDefect? name fields = some e) :
    Text.OneLine e.message := by
  unfold timestampDefect? at h
  split at h
  · cases h
    show Text.OneLine ("missing required timestamp field '" ++ name ++ "'")
    simp only [Text.oneLine_append]
    exact ⟨⟨by decide, hname⟩, by decide⟩
  · next f _ =>
    split_ifs at h
    cases h
    show Text.OneLine
      ("timestamp field '" ++ name ++ "' must be a non-nullable unsigned integer, found " ++
        f.typeText)
    simp only [Text.oneLine_append]
    exact ⟨⟨⟨by decide, hname⟩, by decide⟩, f.oneLine_typeText⟩

/-- **Checks**: fields with names of one line are refused for a reason of one line. -/
theorem oneLine_message_of_check {fields : List Field} {e : Defect}
    (hnames : ∀ f ∈ fields, Text.OneLine f.name) (hcheck : check fields = .error e) :
    Text.OneLine e.message := by
  have h : defect? fields = some e := by
    unfold check at hcheck
    split at hcheck
    · cases hcheck
    · next hdefect => rw [hdefect, Except.error.inj hcheck]
  unfold defect? at h
  split_ifs at h
  · cases h
    decide
  · rcases Option.or_eq_some_iff.mp h with hname | ⟨-, htime⟩
    · exact oneLine_message_of_nameDefect? hnames hname
    · rcases Option.or_eq_some_iff.mp htime with hbegin | ⟨-, hend⟩
      · exact oneLine_message_of_timestampDefect? (by decide) hbegin
      · exact oneLine_message_of_timestampDefect? (by decide) hend

/-! ## Texts -/

/-- **Texts**: what a text gives, fields with names of one line or a reason of one line. -/
theorem oneLine_of_readFields (text : String) :
    (∀ e, readFields text = .error e → Text.OneLine e.message) ∧
      ∀ fs, readFields text = .ok fs → ∀ f ∈ fs, Text.OneLine f.name := by
  cases hread : readLayout text.toList with
  | error stop =>
    rw [readFields, hread]
    refine ⟨?_, fun fs hfs => by cases hfs⟩
    rintro e ⟨⟩
    show Text.OneLine ("line " ++ Nat.repr _ ++ ": " ++ (unexpected stop).message)
    simp only [Text.oneLine_append]
    exact ⟨⟨⟨by decide, Text.oneLine_repr _⟩, by decide⟩, oneLine_message_unexpected stop⟩
  | ok ds =>
    have hlayout := readLayout_eq_ok_iff.mp hread
    by_cases hds : ds = []
    · subst hds
      rw [readFields, hread]
      refine ⟨?_, fun fs hfs => by cases hfs⟩
      rintro e ⟨⟩
      decide
    · rw [readFields_of_isLayoutOf hlayout hds]
      exact Declaration.oneLine_of_toFields (isOneLine_of_isLayoutOf hlayout)

end Layout

end CaptureIngest
