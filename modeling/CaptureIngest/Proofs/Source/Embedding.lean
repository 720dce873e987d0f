import CaptureIngest.Proofs.Session.Names
import CaptureIngest.Proofs.Storage.Paths
import CaptureIngest.Proofs.Text.Quoted

/-!
# Versions where they are embedded

A version that is accepted becomes part of a file pattern, of the literal in which the pattern is
written, and of the text by which a key is shown. Its characters mean nothing in any of the three, and
neither do those that stand around it, the asterisks of the pattern apart.

* `Text.IsSpecial c`: the character `c` means something in a path, between quotes or in a pattern.
* **Patterns** (`FileSource.mem_patternOf`, `FileSource.count_star_patternOf`): a pattern is made of the
  characters of versions, and of the asterisks of the format.
* **Literals** (`Text.quoteWith_of_unchanged`): what holds no break, no backslash and no quote stands
  between quotes as it is.
* **Keys** (`Key.pieces_render`, `Key.render_inj`): the text of a key has three pieces, which name its
  three parts.
* **Versions are safe** (`Version.embedded_safely`): all of this, for every version that is accepted.
-/

namespace CaptureIngest

/-! ## Special characters -/

/-- The characters that may stand for others in a pattern. -/
def Glob.IsWildcard (c : Char) : Prop :=
  c = '*' ∨ c = '?' ∨ c = '[' ∨ c = ']' ∨ c = '\x7b' ∨ c = '\x7d'

/-- The characters that mean something in a path, between quotes or in a pattern. -/
def Text.IsSpecial (c : Char) : Prop :=
  c = '/' ∨ IsQuote c ∨ c = '\\' ∨ isWhiteSpace c = true ∨ Glob.IsWildcard c

/-- No character of a version is special. -/
theorem Version.not_isSpecial {c : Char} (h : isVersionChar c = true) : ¬ Text.IsSpecial c := by
  rintro (rfl | (rfl | rfl) | rfl | hblank | rfl | rfl | rfl | rfl | rfl | rfl)
  case inr.inr.inr.inl => rw [isWhiteSpace_eq_false h] at hblank; cases hblank
  all_goals exact absurd h (by decide)

/-! ## Literals -/

namespace Text

/-- A character that is neither a break nor a backslash nor the quote is written as itself. -/
theorem escapeChar_of_unchanged {quote c : Char}
    (h : ¬ IsBreak c ∧ c ≠ '\\' ∧ c ≠ quote) : escapeChar quote c = [c] := by
  obtain ⟨hbreak, hbackslash, hquote⟩ := h
  simp only [IsBreak, not_or] at hbreak
  simp [escapeChar, hbreak, hbackslash, hquote]

/-- What holds no break, no backslash and no quote stands between quotes as it is. -/
theorem quoteWith_of_unchanged {quote : Char} {s : String}
    (h : ∀ c ∈ s.toList, ¬ IsBreak c ∧ c ≠ '\\' ∧ c ≠ quote) :
    quoteWith quote s = String.singleton quote ++ s ++ String.singleton quote := by
  have hescape : escape quote s.toList = s.toList := by
    rw [escape, List.flatMap_congr fun c hc => escapeChar_of_unchanged (h c hc)]
    exact List.flatMap_singleton' s.toList
  rw [← String.toList_inj, quoteWith, hescape]
  simp

/-- A break is white space. -/
theorem isWhiteSpace_of_isBreak {c : Char} (h : IsBreak c) : isWhiteSpace c = true := by
  rcases h with rfl | rfl | rfl <;> decide

end Text

/-! ## Patterns -/

namespace FileSource

/-- What stands between token and version. -/
def joint : Encoding → String
  | .csv => "_"
  | .rowBinary => "_*"

/-- A pattern in its parts. -/
theorem patternOf_eq (key : Key) : patternOf key =
    key.protocol.fileToken key.encoding ++ joint key.encoding ++ key.version.text ++
      ".*" ++ key.encoding.fileExtension := by
  obtain ⟨p, v, e⟩ := key
  cases e <;> rfl

/-- The characters of a pattern are those of versions, and asterisks. -/
theorem mem_patternOf {key : Key} {c : Char} (hc : c ∈ (patternOf key).toList) :
    Version.isVersionChar c = true ∨ c = '*' := by
  obtain ⟨p, v, e⟩ := key
  by_contra hother
  rw [not_or, Bool.not_eq_true] at hother
  obtain ⟨hversion, hstar⟩ := hother
  have hname : Text.isNameChar c = false := by
    simp only [Version.isVersionChar, Bool.or_eq_false_iff] at hversion
    simp [Text.isNameChar, hversion]
  -- what the format adds is made of such characters too
  have hformat : ∀ part : String,
      part.toList.all (fun d => Version.isVersionChar d || d == '*') = true → c ∉ part.toList := by
    intro part hpart hmem
    simpa [hversion, hstar] using List.all_eq_true.mp hpart c hmem
  simp only [patternOf_eq, String.toList_append, List.mem_append] at hc
  rcases hc with (((htoken | hjoint) | htext) | hplace) | hextension
  · exact p.not_mem_fileToken hname e htoken
  · exact hformat (joint e) (by cases e <;> decide) hjoint
  · exact v.not_mem_text hversion htext
  · exact hformat ".*" (by decide) hplace
  · exact hformat e.fileExtension (by cases e <;> decide) hextension

/-- The number of places that the format of an encoding leaves open in a pattern. -/
def openPlaces : Encoding → Nat
  | .csv => 1
  | .rowBinary => 2

/-- A pattern has the asterisks of the format and no other. -/
theorem count_star_patternOf (key : Key) :
    (patternOf key).toList.count '*' = openPlaces key.encoding := by
  obtain ⟨p, v, e⟩ := key
  have htoken : (p.fileToken e).toList.count '*' = 0 :=
    List.count_eq_zero.mpr (p.isLiteral_fileToken e)
  have htext : v.text.toList.count '*' = 0 := List.count_eq_zero.mpr v.isLiteral_text
  cases e <;> simp [patternOf, openPlaces, Encoding.fileExtension, htoken, htext]

/-- A pattern holds no special character but the asterisks of the format. -/
theorem not_mem_patternOf {key : Key} {c : Char} (hspecial : Text.IsSpecial c) (hstar : c ≠ '*') :
    c ∉ (patternOf key).toList := by
  intro hc
  rcases mem_patternOf hc with hversion | rfl
  · exact Version.not_isSpecial hversion hspecial
  · exact hstar rfl

/-- A pattern stands between quotes as it is. -/
theorem quoteString_patternOf (key : Key) :
    Text.quoteString (patternOf key) = "\"" ++ patternOf key ++ "\"" := by
  apply Text.quoteWith_of_unchanged
  intro c hc
  refine ⟨fun hbreak => ?_, ?_, ?_⟩
  · have hblank := Text.isWhiteSpace_of_isBreak hbreak
    refine not_mem_patternOf (.inr (.inr (.inr (.inl hblank)))) ?_ hc
    rcases hbreak with rfl | rfl | rfl <;> decide
  · rintro rfl
    exact not_mem_patternOf (.inr (.inr (.inl rfl))) (by decide) hc
  · rintro rfl
    exact not_mem_patternOf (.inr (.inl (.inl rfl))) (by decide) hc

end FileSource

/-! ## Keys -/

namespace Key

/-- The text of a key has three pieces between its slashes, one for each part. -/
theorem pieces_render (k : Key) :
    Tree.pieces k.render = [k.protocol.name, k.version.text, k.encoding.name] := by
  have hprotocol : '/' ∉ k.protocol.name.toList := by
    cases k.protocol <;> decide
  have hversion : '/' ∉ k.version.text.toList := k.version.not_mem_text (by decide)
  have hencoding : '/' ∉ k.encoding.name.toList := by
    cases k.encoding <;> decide
  rw [render, Tree.pieces_append_slash, Tree.pieces_append_slash, Tree.pieces_of_not_mem hprotocol,
    Tree.pieces_of_not_mem hversion, Tree.pieces_of_not_mem hencoding]
  rfl

/-- No two keys are shown by the same text. -/
theorem render_inj {k k' : Key} (h : k.render = k'.render) : k = k' := by
  have hpieces := congrArg Tree.pieces h
  rw [pieces_render, pieces_render] at hpieces
  injection hpieces with hprotocol hpieces
  injection hpieces with hversion hpieces
  injection hpieces with hencoding
  have hp := congrArg Protocol.ofText hprotocol
  have he := congrArg Encoding.ofText hencoding
  rw [Protocol.ofText_name, Protocol.ofText_name, Except.ok.injEq] at hp
  rw [Encoding.ofText_name, Encoding.ofText_name, Except.ok.injEq] at he
  have hv := Version.ext_text hversion
  cases k; cases k'; simp_all

end Key

/-! ## Versions are safe -/

/-- A version is made of its own text only. -/
theorem Version.ofString_eq_ok_iff {s : String} {v : Version} : ofString s = .ok v ↔ v.text = s := by
  rw [← ofString?_eq_some_iff, ofString]
  cases ofString? s <;> simp

/-- **Versions are safe** wherever they are embedded, whatever text was accepted as one.

The pattern for a key holds the text and no special character but the one or two asterisks of the
format, so it stands between quotes as it is. The text of the key falls into three pieces at its
slashes; the second is what was accepted, and all three are read back. No other key is shown alike. -/
theorem Version.embedded_safely {s : String} {v : Version} (h : ofString s = .ok v) (p : Protocol)
    (e : Encoding) :
    (∀ options, ∃ files, (Source.bind .file ⟨p, v, e⟩ options).files? = some files ∧
      (∃ before after, files.pattern = before ++ s ++ after) ∧
      (∀ c, Text.IsSpecial c → c ≠ '*' → c ∉ files.pattern.toList) ∧
      files.pattern.toList.count '*' = FileSource.openPlaces e ∧
      Text.quoteString files.pattern = "\"" ++ files.pattern ++ "\"") ∧
    Tree.pieces (Key.render ⟨p, v, e⟩) = [p.name, s, e.name] ∧
    Protocol.ofText p.name = .ok p ∧ Version.ofText s = .ok v ∧ Encoding.ofText e.name = .ok e ∧
    ∀ k, Key.render k = Key.render ⟨p, v, e⟩ → k = ⟨p, v, e⟩ := by
  obtain rfl := ofString_eq_ok_iff.mp h
  refine ⟨fun options => ?_, Key.pieces_render _, p.ofText_name, v.ofText_text, e.ofText_name,
    fun k => Key.render_inj⟩
  refine ⟨_, rfl, ?_, fun c => FileSource.not_mem_patternOf, FileSource.count_star_patternOf _,
    FileSource.quoteString_patternOf _⟩
  refine ⟨p.fileToken e ++ FileSource.joint e, ".*" ++ e.fileExtension, ?_⟩
  exact (FileSource.patternOf_eq ⟨p, v, e⟩).trans String.append_assoc

/-- A version with every kind of character in it, in the binary captures of a protocol whose files go
under another name. -/
theorem Version.embedded_safely_v29 :
    ∃ v, ofString "V29.1-rc_2" = .ok v ∧
      (Source.bind .file ⟨.sql, v, .rowBinary⟩ .default).files?.map (·.pattern) =
        some "databases_*V29.1-rc_2.*chb" ∧
      Tree.pieces (Key.render ⟨.sql, v, .rowBinary⟩) = ["sql", "V29.1-rc_2", "rowbinary"] ∧
      Version.ofText "V29.1-rc_2" = .ok v := by
  have haccepted : isVersionText "V29.1-rc_2" = true := by decide
  have h : ofString "V29.1-rc_2" = .ok ⟨"V29.1-rc_2", haccepted⟩ := ofString_eq_ok_iff.mpr rfl
  obtain ⟨-, hpieces, -, hread, -, -⟩ := embedded_safely h .sql .rowBinary
  exact ⟨_, h, rfl, hpieces, hread⟩

end CaptureIngest
