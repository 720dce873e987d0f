import CaptureIngest.Proofs.Definition.Lines

/-!
# A resolved definition tells what it describes

With literal values, the text of a definition determines the record family and encoding, the fields
but for their notes, and what the source makes the engine read. The text is decoded from the
outside to the inside: the first line gives the name, the encoding clause parts the source clause
from the field list, quoting is undone inside the source clause, and the field list is read back.

* `Source.Agree a b`: two sources make the engine read the same in the same way.
* **Source clauses** (`Clause.lines_resolved_iff`): resolved clauses have the same lines iff their
  sources agree.
* **Whole definitions** (`text_resolved_iff`): the same holds of texts. A text does not tell the
  version of a schema, the notes, or where a prefix ends and a pattern begins.
-/

namespace CaptureIngest

/-! ## Numbers -/

/-- Numbers are determined by their digits. -/
theorem repr_inj {m n : Nat} (h : Nat.repr m = Nat.repr n) : m = n := by
  have hdigits := congrArg String.toList h
  rw [Nat.toList_repr, Nat.toList_repr] at hdigits
  rw [← Nat.ofDigitChars_ten_toDigits (n := m), hdigits, Nat.ofDigitChars_ten_toDigits]

/-! ## Sources -/

/-- Two sources make the engine read the same files or the same topic in the same way. -/
def Source.Agree : Source → Source → Prop
  | files s, files t => s.glob = t.glob ∧ s.compressed = t.compressed ∧ s.delete = t.delete
  | topic s, topic t => s.topic = t.topic ∧ s.broker = t.broker ∧ s.fetchLimit = t.fetchLimit
  | _, _ => False

namespace Clause

/-- The lines behind the paths of a resolved clause tell whether files are compressed and whether
they are deleted. -/
theorem fileLines_inj {s t : FileSource}
    (h : preprocessorLines (s.preprocessor?.map .literal)
        ++ deletionLines (if s.delete then .always else .never) =
      preprocessorLines (t.preprocessor?.map .literal)
        ++ deletionLines (if t.delete then .always else .never)) :
    s.compressed = t.compressed ∧ s.delete = t.delete := by
  have table : ∀ c d c' d' : Bool,
      preprocessorLines ((if c then some decompressor else none).map .literal)
          ++ deletionLines (if d then .always else .never) =
        preprocessorLines ((if c' then some decompressor else none).map .literal)
          ++ deletionLines (if d' then .always else .never) → c = c' ∧ d = d' := by decide
  exact table _ _ _ _ h

/-- The lines of the options of a topic tell the brokers and the fetch limit. -/
theorem optionLines_inj {b c : String} {m n : Option UInt64}
    (h : optionLines (.literal b) (m.map fun n => .literal (Nat.repr n.toNat)) =
      optionLines (.literal c) (n.map fun n => .literal (Nat.repr n.toNat))) : b = c ∧ m = n := by
  cases m with
  | none =>
    cases n with
    | none =>
      have hline := List.singleton_inj.mp h
      exact ⟨Text.quoteString_inj (String.append_right_inj _ |>.mp hline), rfl⟩
    | some n => exact absurd (congrArg List.length h) (by simp [optionLines])
  | some m =>
    cases n with
    | none => exact absurd (congrArg List.length h) (by simp [optionLines])
    | some n =>
      obtain ⟨hbroker, hlimit⟩ := List.cons.inj h
      rw [String.append_assoc, String.append_assoc] at hbroker
      have hb := Text.quoteString_append_inj ((String.append_right_inj _).mp hbroker)
      have hn := Text.quoteString_inj ((String.append_right_inj _).mp (List.singleton_inj.mp hlimit))
      exact ⟨hb.1, congrArg some (UInt64.toNat_inj.mp (repr_inj hn))⟩

/-- Resolved clauses have the same lines iff their sources agree. -/
theorem lines_resolved_iff {e f : Encoding} {a b : Source} :
    (ofSource .resolved e a).lines = (ofSource .resolved f b).lines ↔ a.Agree b := by
  constructor
  · intro h
    cases a with
    | files s =>
      cases b with
      | files t =>
        simp only [ofSource, lines, List.singleton_append] at h
        obtain ⟨hglob, hrest⟩ := List.cons.inj h
        exact ⟨Text.quoteString_inj ((String.append_right_inj _).mp hglob), fileLines_inj hrest⟩
      | topic t =>
        have hfirst := (List.cons.inj h).1
        exact absurd ⟨_, hfirst⟩ (Text.not_begins_append (by decide) (by decide) _)
    | topic s =>
      cases b with
      | files t =>
        have hfirst := (List.cons.inj h).1
        exact absurd ⟨_, hfirst⟩ (Text.not_begins_append (by decide) (by decide) _)
      | topic t =>
        obtain ⟨htopic, hrest⟩ := List.cons.inj h
        exact ⟨Text.quoteString_inj ((String.append_right_inj _).mp htopic),
          optionLines_inj (List.cons.inj hrest).2⟩
  · intro h
    cases a with
    | files s =>
      cases b with
      | files t =>
        obtain ⟨hglob, hcompressed, hdelete⟩ := h
        simp only [ofSource, FileSource.preprocessor?, hglob, hcompressed, hdelete]
      | topic t => exact h.elim
    | topic s =>
      cases b with
      | files t => exact h.elim
      | topic t =>
        obtain ⟨htopic, hbroker, hlimit⟩ := h
        simp only [ofSource, htopic, hbroker, hlimit]

end Clause

/-! ## Field lists -/

/-- A field list does not tell notes. -/
theorem FieldList.linesFrom_map_withoutNote (position : Nat) (fields : List Field) :
    linesFrom position (fields.map Field.withoutNote) = linesFrom position fields := by
  induction fields generalizing position with
  | nil => rfl
  | cons f fields ih =>
    rw [List.map_cons, linesFrom_cons, linesFrom_cons, ih, List.isEmpty_map]
    rfl

/-- Field lists tell everything else. -/
theorem Schema.fieldLines_eq_iff {s t : Schema} :
    FieldList.lines s.fields = FieldList.lines t.fields ↔
      s.fields.map Field.withoutNote = t.fields.map Field.withoutNote := by
  constructor
  · intro h
    have hread := s.readFields_fieldLines
    rw [h, t.readFields_fieldLines] at hread
    exact (Except.ok.inj hread).symm
  · intro h
    rw [FieldList.lines, FieldList.lines, ← FieldList.linesFrom_map_withoutNote, h,
      FieldList.linesFrom_map_withoutNote]

/-! ## Whole definitions -/

namespace Definition

/-- The lines in front of the encoding clause tell the name and the lines of the source clause. -/
theorem frontLines_inj {d e : Definition} {xs ys : List String}
    (h : d.frontLines ++ xs = e.frontLines ++ ys) :
    d.name = e.name ∧ d.clause.lines ++ xs = e.clause.lines ++ ys := by
  simp only [frontLines, headLines, List.cons_append, List.nil_append] at h
  obtain ⟨hfirst, hrest⟩ := List.cons.inj h
  have hname := (String.append_right_inj _).mp ((String.append_left_inj _).mp hfirst)
  exact ⟨Text.quoteIdentifier_inj hname, (List.cons.inj hrest).2⟩

/-- **A resolved definition tells what it describes**: two of them have the same text iff they are
of the same protocol and encoding, their fields are the same but for notes, and their sources make
the engine read the same. -/
theorem text_resolved_iff (s t : Schema) (a b : Source) :
    (Definition.mk s a .resolved).text = (Definition.mk t b .resolved).text ↔
      s.key.protocol = t.key.protocol ∧ s.key.encoding = t.key.encoding ∧
        s.fields.map Field.withoutNote = t.fields.map Field.withoutNote ∧ a.Agree b := by
  constructor
  · intro h
    have hlines := congrArg Text.splitLines h
    rw [splitLines_text, splitLines_text] at hlines
    have hcut := List.append_cancel_right hlines
    obtain ⟨hname, -⟩ := frontLines_inj hcut
    obtain ⟨hprotocol, hencoding⟩ :
        s.key.protocol = t.key.protocol ∧ s.key.encoding = t.key.encoding :=
      Protocol.definitionName_inj hname
    -- both have the same encoding clause now, which parts the lines of both in the same place
    simp only [key, ← hencoding] at hcut
    obtain ⟨hfront, hfields⟩ := append_encodingLines_inj (d := ⟨s, a, .resolved⟩) hcut
    refine ⟨hprotocol, hencoding, Schema.fieldLines_eq_iff.mp hfields, ?_⟩
    have hclause := (frontLines_inj (congrArg (· ++ []) hfront)).2
    exact Clause.lines_resolved_iff.mp (List.append_cancel_right hclause)
  · rintro ⟨hprotocol, hencoding, hfields, hsource⟩
    have hname : (Definition.mk s a .resolved).name = (Definition.mk t b .resolved).name :=
      congrArg₂ Protocol.definitionName hprotocol hencoding
    have hclause : (Definition.mk s a .resolved).clause.lines =
        (Definition.mk t b .resolved).clause.lines := Clause.lines_resolved_iff.mpr hsource
    have hlist := Schema.fieldLines_eq_iff.mpr hfields
    rw [text_eq_joinLines, text_eq_joinLines]
    simp only [closedLines, frontLines, key, hname, hclause, hlist, hencoding]

end Definition

end CaptureIngest
