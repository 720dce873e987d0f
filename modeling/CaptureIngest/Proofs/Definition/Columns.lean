import CaptureIngest.Proofs.Definition.FieldList
import Mathlib.Data.List.DropRight

/-!
# The columns of a field list

How the lines of a field list look. A line is read here as a reader would: what begins with two hyphens
is its comment, and the blanks in front of that belong to neither part.

* `FieldList.uncommented line`, `FieldList.commentOf? line`: a line without its comment, and the comment
  with the column at which it begins.
* `FieldList.IsLaidOut position isLast f line`: the line is that of the field `f`, with the comment of
  the position in the right column, if the position has one.
* **One line** (`isLaidOut_line`): every line of a field list is laid out. A bare line holds no hyphen
  and ends in a comma or a parenthesis (`not_mem_bareLine`, `exists_bareLine_eq`), so a reader finds the
  comment where it was put.
* **All lines** (`lines_laid_out`): there is one line for each field, and joined without comments and
  indentation they are the fields in parentheses, with commas between them.

Columns count characters. These are ASCII characters, so columns count bytes as well.
-/

namespace CaptureIngest

/-! ## The characters of a line -/

/-- The characters of a line of a field list, its comment apart. -/
def FieldList.isBareChar (c : Char) : Bool :=
  Text.isNameChar c || " ?\x7b\x7d^(),".toList.contains c

/-- A text is made of the characters of bare lines. -/
def FieldList.IsBare (s : String) : Prop :=
  ∀ c ∈ s.toList, isBareChar c = true

instance (s : String) : Decidable (FieldList.IsBare s) :=
  decidable_of_iff (s.toList.all FieldList.isBareChar = true) List.all_eq_true

/-- Two texts together are bare iff each of them is. -/
@[simp]
theorem FieldList.isBare_append {s t : String} : IsBare (s ++ t) ↔ IsBare s ∧ IsBare t := by
  simp [IsBare, or_imp, forall_and]

/-- A field with a good name is rendered in the characters of bare lines. -/
theorem Field.isBare_render {f : Field} (hf : Text.isPlainIdentifier f.name = true) :
    FieldList.IsBare f.render := by
  have hname : FieldList.IsBare f.name := fun c hc => by
    rw [FieldList.isBareChar, (Text.isNameChar_of_isPlainIdentifier hf).2 c hc, Bool.true_or]
  have hkind : FieldList.IsBare f.kind.name := by
    cases f.kind <;> decide
  have hmark : FieldList.IsBare (if f.nullable then "?" else "") := by
    cases f.nullable <;> decide
  simp only [render, typeText, FieldList.isBare_append]
  refine ⟨⟨⟨hname, by decide⟩, hkind, hmark⟩, ?_⟩
  rcases f.measure with _ | m
  · decide
  · cases m <;> decide

namespace FieldList

/-- A line without its comment is made of the characters of bare lines. -/
theorem isBare_bareLine (position : Nat) (isLast : Bool) {f : Field}
    (hf : Text.isPlainIdentifier f.name = true) : IsBare (bareLine position isLast f) := by
  have hopen : IsBare (if position = 1 then "    (" else "     ") := by
    split_ifs <;> decide
  have hclose : IsBare (if isLast then ")" else ",") := by
    cases isLast <;> decide
  simp only [bareLine, isBare_append]
  exact ⟨⟨hopen, Field.isBare_render hf⟩, hclose⟩

/-- A line without its comment holds no hyphen. -/
theorem not_mem_bareLine (position : Nat) (isLast : Bool) {f : Field}
    (hf : Text.isPlainIdentifier f.name = true) : '-' ∉ (bareLine position isLast f).toList := by
  intro hmem
  exact absurd (isBare_bareLine position isLast hf '-' hmem) (by decide)

/-- A line without its comment does not end in a blank. -/
theorem exists_bareLine_eq (position : Nat) (isLast : Bool) (f : Field) :
    ∃ front last, (bareLine position isLast f).toList = front ++ [last] ∧
      Text.isWhiteSpace last = false := by
  cases isLast with
  | true => exact ⟨_, ')', by simp only [bareLine, String.toList_append]; rfl, by decide⟩
  | false => exact ⟨_, ',', by simp only [bareLine, String.toList_append]; rfl, by decide⟩

/-- The characters of bare lines are ASCII characters. -/
theorem toNat_lt_of_isBareChar {c : Char} (h : isBareChar c = true) : c.toNat < 128 := by
  simp only [isBareChar, Text.isNameChar, Char.isAlphanum, Bool.or_eq_true, Text.isAlpha_iff,
    Text.isDigit_iff, beq_iff_eq, List.contains_iff_mem] at h
  have hle : ∀ {d : Char}, c ≤ d → d.toNat < 128 → c.toNat < 128 := fun hcd hd =>
    Nat.lt_of_le_of_lt (UInt32.le_iff_toNat_le.mp hcd) hd
  rcases h with (((hupper | hlower) | hdigit) | rfl) | hsign
  · exact hle hupper.2 (by decide)
  · exact hle hlower.2 (by decide)
  · exact hle hdigit.2 (by decide)
  · decide
  · have table : (" ?\x7b\x7d^(),".toList.all fun d => d.toNat < 128) = true := by decide
    simpa using List.all_eq_true.mp table c hsign

/-! ## Reading a line -/

/-- What stands in front of the first two hyphens in a row, and what begins with them. -/
def cutAtComment : List Char → List Char × List Char
  | [] => ([], [])
  | c :: rest =>
    if c = '-' ∧ rest.head? = some '-' then ([], c :: rest)
    else (c :: (cutAtComment rest).1, (cutAtComment rest).2)

/-- A line without its comment and without the blanks in front of it. -/
def uncommented (line : String) : String :=
  .ofList ((cutAtComment line.toList).1.rdropWhile Text.isWhiteSpace)

/-- The comment of a line with the column, counted from zero, at which it begins. -/
def commentOf? (line : String) : Option (Nat × String) :=
  match cutAtComment line.toList with
  | (_, []) => none
  | (front, c :: rest) => some (front.length, .ofList (c :: rest))

/-- Where there is no hyphen there is no comment. -/
theorem cutAtComment_of_not_mem {front : List Char} (h : '-' ∉ front) :
    cutAtComment front = (front, []) := by
  induction front with
  | nil => rfl
  | cons c front ih =>
    rw [List.mem_cons, not_or] at h
    rw [cutAtComment, if_neg fun hc => h.1 hc.1.symm, ih h.2]

/-- Behind a text without hyphens the comment begins. -/
theorem cutAtComment_append {front : List Char} (h : '-' ∉ front) (rest : List Char) :
    cutAtComment (front ++ '-' :: '-' :: rest) = (front, '-' :: '-' :: rest) := by
  induction front with
  | nil => rfl
  | cons c front ih =>
    rw [List.mem_cons, not_or] at h
    rw [List.cons_append, cutAtComment, if_neg fun hc => h.1 hc.1.symm, ih h.2]

/-- Spaces behind a text that does not end in a blank are trimmed. -/
theorem rdropWhile_spaces {last : Char} (hlast : Text.isWhiteSpace last = false)
    (front : List Char) (n : Nat) :
    (front ++ [last] ++ List.replicate n ' ').rdropWhile Text.isWhiteSpace = front ++ [last] := by
  have hspaces : ∀ c ∈ List.replicate n ' ', Text.isWhiteSpace c = true := by
    intro c hc
    obtain rfl := List.eq_of_mem_replicate hc
    decide
  rw [List.rdropWhile, List.reverse_append, List.reverse_replicate,
    List.dropWhile_append_of_pos hspaces, ← List.rdropWhile, List.rdropWhile_concat_neg]
  simp [hlast]

/-- A bare line is read as it is. -/
theorem uncommented_of_not_mem {bare : String} (hyphen : '-' ∉ bare.toList) {front : List Char}
    {last : Char} (hbare : bare.toList = front ++ [last]) (hlast : Text.isWhiteSpace last = false) :
    uncommented bare = bare ∧ commentOf? bare = none := by
  rw [uncommented, commentOf?, cutAtComment_of_not_mem hyphen]
  have htrim := rdropWhile_spaces hlast front 0
  rw [List.replicate_zero, List.append_nil, ← hbare] at htrim
  exact ⟨by rw [htrim, String.ofList_toList], rfl⟩

/-- A bare line is found in front of spaces and a comment, and the comment behind them. -/
theorem uncommented_append {bare : String} (hyphen : '-' ∉ bare.toList) {front : List Char}
    {last : Char} (hbare : bare.toList = front ++ [last]) (hlast : Text.isWhiteSpace last = false)
    (n : Nat) (text : String) :
    uncommented (bare ++ Text.spaces n ++ ("--" ++ text)) = bare ∧
      commentOf? (bare ++ Text.spaces n ++ ("--" ++ text)) =
        some (bare.length + n, "--" ++ text) := by
  have hchars : (bare ++ Text.spaces n ++ ("--" ++ text)).toList =
      (bare.toList ++ List.replicate n ' ') ++ '-' :: '-' :: text.toList := by
    simp only [String.toList_append, Text.toList_spaces]
    rfl
  have hfront : '-' ∉ bare.toList ++ List.replicate n ' ' := by
    simp [hyphen]
  rw [uncommented, commentOf?, hchars, cutAtComment_append hfront]
  constructor
  · rw [hbare, rdropWhile_spaces hlast, ← hbare, String.ofList_toList]
  · have htext : String.ofList ('-' :: '-' :: text.toList) = "--" ++ text := by
      rw [← String.toList_inj]
      simp
    simp only [htext, List.length_append, List.length_replicate, String.length_toList]

/-! ## One line -/

/-- A line as it is specified for a field at a position, counted from one. -/
structure IsLaidOut (position : Nat) (isLast : Bool) (f : Field) (line : String) : Prop where
  /-- In front of the comment are the indentation, the field, and what parts it from the next one. -/
  bare : uncommented line =
    (if position = 1 then "    (" else "     ") ++ f.render ++ if isLast then ")" else ","
  /-- The first line and every tenth have a comment, which is the position. It begins at the common
  column, or one space behind a line that reaches so far. -/
  comment : commentOf? line =
    if position = 1 ∨ 10 ∣ position then
      some (max 40 ((uncommented line).length + 1), "-- " ++ Nat.repr position)
    else none
  /-- In front of a comment there are only spaces. -/
  gap : ∀ column text, commentOf? line = some (column, text) →
    line = uncommented line ++ Text.spaces (column - (uncommented line).length) ++ text
  /-- Where there is no comment nothing stands in its place. -/
  plain : commentOf? line = none → line = uncommented line
  /-- Every character is one byte. -/
  ascii : ∀ c ∈ line.toList, c.toNat < 128

/-- The first field is numbered, and every tenth. -/
theorem isNumbered_iff {position : Nat} :
    isNumbered position = true ↔ position = 1 ∨ 10 ∣ position := by
  simp [isNumbered, Nat.dvd_iff_mod_eq_zero]

/-- The comment of a line is made of ASCII characters. -/
theorem toNat_lt_of_mem_comment {bare : String} {position : Nat} {c : Char}
    (hc : c ∈ (comment bare position).toList) : c.toNat < 128 := by
  unfold comment at hc
  split at hc
  · simp only [String.toList_append, Text.toList_spaces, Nat.toList_repr, List.mem_append] at hc
    rcases hc with (hspace | hhyphen) | hdigit
    · obtain rfl := List.eq_of_mem_replicate hspace
      decide
    · have table : ("-- ".toList.all fun d => d.toNat < 128) = true := by decide
      simpa using List.all_eq_true.mp table c hhyphen
    · have hbare : isBareChar c = true := by
        simp [isBareChar, Text.isNameChar, Char.isAlphanum,
          Nat.isDigit_of_mem_toDigits (by decide) (by decide) hdigit]
      exact toNat_lt_of_isBareChar hbare
  · simp at hc

/-- All characters of a line are of seven bits if those of the name are plain. -/
theorem toNat_lt_of_mem_line {position : Nat} {isLast : Bool} {f : Field}
    (hf : Text.isPlainIdentifier f.name = true) {c : Char}
    (hc : c ∈ (line position isLast f).toList) : c.toNat < 128 := by
  rw [line, String.toList_append, List.mem_append] at hc
  rcases hc with hc | hc
  · exact toNat_lt_of_isBareChar (isBare_bareLine position isLast hf c hc)
  · exact toNat_lt_of_mem_comment hc

/-- A line with a comment: spaces up to the column stand in front of it, but one at least. -/
theorem line_of_isNumbered {position : Nat} (h : isNumbered position = true) (isLast : Bool)
    (f : Field) :
    line position isLast f = bareLine position isLast f ++
      Text.spaces (max 1 (commentColumn - (bareLine position isLast f).length)) ++
        ("--" ++ (" " ++ Nat.repr position)) := by
  have hopen : "-- " = "--" ++ " " := by decide
  rw [line, comment, if_pos h, hopen]
  simp only [String.append_assoc]

/-- A line without a number is bare. -/
theorem line_of_not_isNumbered {position : Nat} (h : ¬ isNumbered position = true) (isLast : Bool)
    (f : Field) : line position isLast f = bareLine position isLast f := by
  rw [line, comment, if_neg h, String.append_empty]

/-- **One line**: the line of a field with a good name is laid out. -/
theorem isLaidOut_line (position : Nat) (isLast : Bool) {f : Field}
    (hf : Text.isPlainIdentifier f.name = true) :
    IsLaidOut position isLast f (line position isLast f) := by
  have hyphen := not_mem_bareLine position isLast hf
  obtain ⟨front, last, hbare, hlast⟩ := exists_bareLine_eq position isLast f
  have hascii : ∀ c ∈ (line position isLast f).toList, c.toNat < 128 := fun c =>
    toNat_lt_of_mem_line hf
  by_cases hnumbered : isNumbered position = true
  · have hline := line_of_isNumbered hnumbered isLast f
    obtain ⟨huncommented, hcomment⟩ :=
      uncommented_append hyphen hbare hlast
        (max 1 (commentColumn - (bareLine position isLast f).length)) (" " ++ Nat.repr position)
    rw [← hline] at huncommented hcomment
    have hcolumn : (bareLine position isLast f).length +
        max 1 (commentColumn - (bareLine position isLast f).length) =
          max 40 ((bareLine position isLast f).length + 1) := by
      rw [commentColumn]
      omega
    constructor
    case bare => exact huncommented
    case comment =>
      rw [hcomment, huncommented, if_pos (isNumbered_iff.mp hnumbered), hcolumn]
      rfl
    case gap =>
      intro column text hfound
      rw [hcomment, Option.some.injEq, Prod.mk.injEq] at hfound
      obtain ⟨rfl, rfl⟩ := hfound
      rw [huncommented, Nat.add_sub_cancel_left, ← hline]
    case plain => simp [hcomment]
    case ascii => exact hascii
  · have hline := line_of_not_isNumbered hnumbered isLast f
    obtain ⟨huncommented, hcomment⟩ := uncommented_of_not_mem hyphen hbare hlast
    rw [← hline] at huncommented hcomment
    constructor
    case bare => exact huncommented.trans hline
    case comment => rw [hcomment, if_neg fun h => hnumbered (isNumbered_iff.mpr h)]
    case gap => simp [hcomment]
    case plain => exact fun _ => huncommented.symm
    case ascii => exact hascii

/-! ## All lines -/

/-- The line at an index is that of the field there. -/
theorem getElem?_linesFrom {position i : Nat} {fields : List Field} {f : Field}
    (h : fields[i]? = some f) :
    (linesFrom position fields)[i]? = some (line (position + i) (i + 1 == fields.length) f) := by
  induction fields generalizing position i with
  | nil => simp at h
  | cons g rest ih =>
    cases i with
    | zero =>
      obtain rfl : g = f := by simpa using h
      cases rest <;> simp
    | succ i =>
      have hrest := @ih (position + 1) i (by simpa using h)
      rw [linesFrom_cons, List.getElem?_cons_succ, hrest]
      simp [Nat.add_assoc, Nat.add_comm 1 i]

/-- A text without the spaces that it begins with. -/
def outdented (s : String) : String :=
  .ofList (s.toList.dropWhile (· == ' '))

/-- Spaces in front of a text that begins otherwise are dropped. -/
theorem outdented_append {c : Char} (hc : c ≠ ' ') {s : String} {cs : List Char}
    (hs : s.toList = c :: cs) (n : Nat) : outdented (Text.spaces n ++ s) = s := by
  have hspaces : ∀ d ∈ List.replicate n ' ', (d == ' ') = true := by
    intro d hd
    simp [List.eq_of_mem_replicate hd]
  rw [outdented, String.toList_append, Text.toList_spaces, List.dropWhile_append_of_pos hspaces, hs,
    List.dropWhile_cons_of_neg (by simpa using hc), ← hs, String.ofList_toList]

/-- A rendered field does not begin with a space. -/
theorem exists_render_eq_cons {f : Field} (hf : Text.isPlainIdentifier f.name = true) :
    ∃ c cs, f.render.toList = c :: cs ∧ c ≠ ' ' := by
  obtain ⟨hne, hchars⟩ := Text.isNameChar_of_isPlainIdentifier hf
  obtain ⟨c, cs, hcs⟩ := List.exists_cons_of_ne_nil hne
  refine ⟨c, _, by rw [Field.toList_render, hcs, List.cons_append], ?_⟩
  rintro rfl
  exact absurd (hchars ' ' (hcs ▸ List.mem_cons_self)) (by decide)

/-- A bare line without its indentation. -/
theorem outdented_bareLine (position : Nat) (isLast : Bool) {f : Field}
    (hf : Text.isPlainIdentifier f.name = true) :
    outdented (bareLine position isLast f) =
      (if position = 1 then "(" else "") ++ f.render ++ if isLast then ")" else "," := by
  unfold bareLine
  generalize (if isLast then ")" else ",") = close
  by_cases hfirst : position = 1
  · have hopen : "    (" = Text.spaces 4 ++ "(" := by decide
    have hchars : ("(" ++ f.render ++ close).toList = '(' :: (f.render ++ close).toList := by
      simp
    rw [if_pos hfirst, if_pos hfirst, hopen, String.append_assoc, String.append_assoc,
      ← String.append_assoc]
    exact outdented_append (by decide) hchars 4
  · obtain ⟨c, cs, hrender, hc⟩ := exists_render_eq_cons hf
    have hopen : "     " = Text.spaces 5 := by decide
    have hchars : (f.render ++ close).toList = c :: (cs ++ close.toList) := by
      rw [String.toList_append, hrender, List.cons_append]
    rw [if_neg hfirst, if_neg hfirst, hopen, String.append_assoc, String.empty_append]
    exact outdented_append hc hchars 5

/-- A line without its comment and its indentation. -/
theorem outdented_uncommented_line (position : Nat) (isLast : Bool) {f : Field}
    (hf : Text.isPlainIdentifier f.name = true) :
    outdented (uncommented (line position isLast f)) =
      (if position = 1 then "(" else "") ++ f.render ++ if isLast then ")" else "," := by
  rw [(isLaidOut_line position isLast hf).bare]
  exact outdented_bareLine position isLast hf

/-- Lines from a position on, joined without comments and indentation: the fields with commas between
them and a closing parenthesis, behind an opening one if these are all. -/
theorem join_outdented_linesFrom {f : Field} {fields : List Field} {position : Nat}
    (hposition : position ≠ 0)
    (hnames : ∀ g ∈ f :: fields, Text.isPlainIdentifier g.name = true) :
    String.join ((linesFrom position (f :: fields)).map fun line => outdented (uncommented line)) =
      (if position = 1 then "(" else "") ++ ",".intercalate ((f :: fields).map Field.render) ++
        ")" := by
  have hf := hnames f List.mem_cons_self
  induction fields generalizing f position with
  | nil =>
    rw [linesFrom_cons, linesFrom_nil, List.map_singleton, List.map_singleton,
      String.intercalate_singleton, outdented_uncommented_line _ _ hf]
    simp
  | cons g rest ih =>
    have hrest : ∀ g' ∈ g :: rest, Text.isPlainIdentifier g'.name = true :=
      fun g' hg' => hnames g' (List.mem_cons_of_mem f hg')
    have hnext : position + 1 ≠ 1 := by omega
    have hjoin := @ih g (position + 1) (by omega) hrest (hrest g List.mem_cons_self)
    rw [if_neg hnext, String.empty_append] at hjoin
    have hmore : (g :: rest).map Field.render ≠ [] := List.cons_ne_nil _ _
    rw [linesFrom_cons, List.map_cons, String.join_cons, hjoin, outdented_uncommented_line _ _ hf,
      List.map_cons (a := f), String.intercalate_cons_of_ne_nil hmore]
    simp only [List.isEmpty_cons, Bool.false_eq_true, if_false, String.append_assoc]

/-- **All lines**: the lines of a field list are laid out, one for each field in order. Joined without
comments and indentation they are the fields in parentheses, with commas between them. -/
theorem lines_laid_out {fields : List Field} (hne : fields ≠ [])
    (hnames : ∀ f ∈ fields, Text.isPlainIdentifier f.name = true) :
    (lines fields).length = fields.length ∧
    (∀ i f, fields[i]? = some f → ∃ line, (lines fields)[i]? = some line ∧
      IsLaidOut (i + 1) (i + 1 == fields.length) f line) ∧
    String.join ((lines fields).map fun line => outdented (uncommented line)) =
      "(" ++ ",".intercalate (fields.map Field.render) ++ ")" := by
  refine ⟨length_lines fields, fun i f hi => ?_, ?_⟩
  · refine ⟨_, getElem?_linesFrom hi, ?_⟩
    rw [Nat.add_comm 1 i]
    exact isLaidOut_line _ _ (hnames f (List.mem_of_getElem? hi))
  · obtain ⟨f, rest, rfl⟩ := List.exists_cons_of_ne_nil hne
    exact join_outdented_linesFrom Nat.one_ne_zero hnames

/-- Three fields, the first of which has a line that goes beyond the column of comments. -/
def longNamed : List Field :=
  [.required "a_really_long_field_name_for_testing" .string, .captureTime "capture_begin",
    .captureTime "capture_end"]

/-- The comment of a long line stands one space behind it. -/
theorem lines_laid_out_longNamed :
    longNamed ≠ [] ∧ (∀ f ∈ longNamed, Text.isPlainIdentifier f.name = true) ∧
      (∃ line, (lines longNamed)[0]? = some line ∧ commentOf? line = some (50, "-- 1") ∧
        line = "    (a_really_long_field_name_for_testing string, -- 1") ∧
      String.join ((lines longNamed).map fun line => outdented (uncommented line)) =
        "(a_really_long_field_name_for_testing string,capture_begin u64,capture_end u64)" := by
  have hne : longNamed ≠ [] := List.cons_ne_nil _ _
  have hnames : ∀ f ∈ longNamed, Text.isPlainIdentifier f.name = true := by decide
  obtain ⟨-, hlines, hjoin⟩ := lines_laid_out hne hnames
  obtain ⟨line, hline, hlaid⟩ := hlines 0 _ rfl
  have hbare : uncommented line = "    (a_really_long_field_name_for_testing string," := hlaid.bare
  have hcomment : commentOf? line = some (50, "-- 1") := by
    rw [hlaid.comment, hbare]
    decide
  refine ⟨hne, hnames, ⟨line, hline, hcomment, ?_⟩, hjoin⟩
  rw [hlaid.gap 50 "-- 1" hcomment, hbare]
  decide

end FieldList

end CaptureIngest
