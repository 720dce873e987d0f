import CaptureIngest.Proofs.Output.Directory

/-!
# What the options of capture files change

Capture files may be compressed, and may be deleted once they are read. Two definitions of one schema
that differ in such an option alone are compared line by line.

* `Definition.ofFiles`: the definition that reads a schema's records from capture files.
* **Literals** (`Text.quotedBody_append`, `Text.readBody_quotedBody`): a suffix that needs no backslash is
  written as it is in front of the closing quote, whatever the text in front of it holds.
* **Resolved** (`splitLines_ofFiles_compressed`, `splitLines_ofFiles_delete`): compression adds the
  suffix to the paths and a line behind them, deletion a line in front of the encoding clause.
* **Parameterized** (`text_ofFiles_parameterized`, `splitLines_program_ofFiles`): the definition stays
  the same, and in its program each option changes the line that declares it.
* **All of it** (`ofFiles_options_exact`), for every schema, prefix and pattern.
-/

namespace CaptureIngest

/-! ## Literals -/

namespace Text

/-- A text as it stands between quotes. -/
def quotedBody (s : String) : String :=
  String.ofList (escape '"' s.toList)

/-- A string literal is its body between quotes. -/
theorem quoteString_eq (s : String) : quoteString s = "\"" ++ quotedBody s ++ "\"" := by
  apply String.toList_injective
  simp [toList_quoteString, quotedBody]

/-- What needs no backslash is written behind a text as it is. -/
theorem quotedBody_append {t : String} (ht : escape '"' t.toList = t.toList) (s : String) :
    quotedBody (s ++ t) = quotedBody s ++ t := by
  apply String.toList_injective
  simp [quotedBody, escape_append, ht]

/-- The body of a literal is read back, and the quote behind it closes the literal. -/
theorem readBody_quotedBody (s : String) :
    readBody '"' (quotedBody s ++ "\"").toList = some (s.toList, []) := by
  have hread := readBody_escape (.inl rfl) s.toList []
  simpa [quotedBody] using hread

end Text

namespace Program

/-- A parameterized program of one definition in lines: the header, the declarations and the definition,
with empty lines between them. -/
theorem splitLines_text_singleton (d : Definition) :
    Text.splitLines (text .parameterized [d]) =
      header :: "" :: parameterHead :: (declarationLines (parameters [d]) ++
        "" :: (Text.splitLines d.text ++ [""])) := by
  have hheader : Text.IsParagraph [header] := ⟨List.cons_ne_nil _ _, by decide, by decide⟩
  have hdeclared : Text.IsParagraph (parameterHead :: declarationLines (parameters [d])) := by
    obtain ⟨x, xs, hcons⟩ := List.exists_cons_of_ne_nil fun hnil =>
      List.cons_ne_nil d [] (parameters_eq_nil_iff.mp hnil)
    have hmem : parameterHead :: declarationLines (x :: xs) ∈ parameterLines (x :: xs) :=
      List.mem_cons_self
    rw [hcons]
    exact isParagraph_parameterLines _ hmem
  have hlast : Text.splitLines (d.text ++ "\n") = Text.splitLines d.text ++ [""] := by
    have hlines := d.isParagraph_closedLines
    have happend := Text.splitLines_joinLines_append hlines.oneLine hlines.ne_nil ""
    rw [← d.text_eq_joinLines, String.append_empty] at happend
    rw [happend, d.splitLines_text]
    rfl
  have hbehind := Text.splitLines_gap hdeclared (d.text ++ "\n")
  have hall := Text.splitLines_gap hheader
    (Text.joinLines (parameterHead :: declarationLines (parameters [d])) ++ "\n\n" ++
      (d.text ++ "\n"))
  rw [hbehind, hlast] at hall
  rw [text_parameterized_singleton]
  simpa [String.append_assoc, Text.joinLines] using hall

end Program

namespace Definition

/-- The definition that reads the records of a schema from capture files. -/
def ofFiles (style : Style) (schema : Schema) (pathPrefix pattern : String)
    (compressed delete : Bool) : Definition :=
  ⟨schema, .files ⟨pathPrefix, pattern, compressed, delete⟩, style⟩

section

variable (schema : Schema) (pathPrefix pattern : String)

/-! ## Resolved -/

/-- A resolved definition of capture files in lines, from the paths on told by its options. -/
theorem splitLines_ofFiles_resolved (compressed delete : Bool) :
    Text.splitLines (ofFiles .resolved schema pathPrefix pattern compressed delete).text =
      headLines schema.definitionName ++
        ("    FILES \"" ++ Text.quotedBody (pathPrefix ++ pattern ++
            if compressed then compressedSuffix else "") ++ "\"") ::
          ((if compressed then ["      PREPROCESSED WITH \"lz4 -d -c\""] else []) ++
            ((if delete then ["      THEN DELETE"] else []) ++
              (encodingLines schema.key.encoding ++
                (FieldList.lines schema.fields ++ closingLines)))) := by
  have hpaths : ∀ s, "    FILES " ++ (TextExpr.literal s).render =
      "    FILES \"" ++ Text.quotedBody s ++ "\"" := fun s => by
    rw [TextExpr.render, Text.quoteString_eq, ← String.append_assoc, ← String.append_assoc]
    rfl
  have hcommand : "      PREPROCESSED WITH " ++ (TextExpr.literal decompressor).render =
      "      PREPROCESSED WITH \"lz4 -d -c\"" := by decide
  have hclause : (ofFiles .resolved schema pathPrefix pattern compressed delete).clause.lines =
      ("    FILES " ++ (TextExpr.literal (pathPrefix ++ pattern ++
          if compressed then compressedSuffix else "")).render) ::
        ((if compressed then ["      PREPROCESSED WITH " ++ (TextExpr.literal decompressor).render]
          else []) ++ (if delete then ["      THEN DELETE"] else [])) := by
    cases compressed <;> cases delete <;> rfl
  rw [splitLines_text, closedLines, frontLines, hclause, hpaths, hcommand]
  simp only [List.append_assoc, List.cons_append]
  rfl

/-- Compression adds the suffix to the paths and a line behind them. -/
theorem splitLines_ofFiles_compressed (delete : Bool) :
    ∃ front literal back,
      Text.splitLines (ofFiles .resolved schema pathPrefix pattern false delete).text =
        front ++ ("    FILES \"" ++ literal ++ "\"") :: back ∧
      Text.splitLines (ofFiles .resolved schema pathPrefix pattern true delete).text =
        front ++ ("    FILES \"" ++ literal ++ ".lz4\"") ::
          "      PREPROCESSED WITH \"lz4 -d -c\"" :: back ∧
      Text.readBody '"' (literal ++ "\"").toList = some ((pathPrefix ++ pattern).toList, []) ∧
      Text.readBody '"' (literal ++ ".lz4\"").toList =
        some ((pathPrefix ++ pattern ++ ".lz4").toList, []) := by
  have hsuffix : Text.quotedBody (pathPrefix ++ pattern ++ ".lz4") =
      Text.quotedBody (pathPrefix ++ pattern) ++ ".lz4" :=
    Text.quotedBody_append (by decide) _
  have hplain := splitLines_ofFiles_resolved schema pathPrefix pattern false delete
  have hcompressed := splitLines_ofFiles_resolved schema pathPrefix pattern true delete
  have hread := Text.readBody_quotedBody (pathPrefix ++ pattern)
  have hreadSuffix := Text.readBody_quotedBody (pathPrefix ++ pattern ++ ".lz4")
  rw [if_neg (by decide), if_neg (by decide), String.append_empty] at hplain
  rw [if_pos rfl, if_pos rfl, compressedSuffix, hsuffix] at hcompressed
  rw [hsuffix] at hreadSuffix
  -- the suffix stands in front of the closing quote
  rw [String.append_assoc, String.append_assoc] at hcompressed
  rw [String.append_assoc] at hreadSuffix
  refine ⟨headLines schema.definitionName, Text.quotedBody (pathPrefix ++ pattern), _, hplain, ?_,
    hread, hreadSuffix⟩
  rw [hcompressed, String.append_assoc]
  rfl

/-- Deletion adds a line in front of the encoding clause. -/
theorem splitLines_ofFiles_delete (compressed : Bool) :
    ∃ front back,
      Text.splitLines (ofFiles .resolved schema pathPrefix pattern compressed false).text =
        front ++ (encodingLines schema.key.encoding ++ back) ∧
      Text.splitLines (ofFiles .resolved schema pathPrefix pattern compressed true).text =
        front ++ "      THEN DELETE" :: (encodingLines schema.key.encoding ++ back) := by
  rw [splitLines_ofFiles_resolved, splitLines_ofFiles_resolved]
  refine ⟨headLines schema.definitionName ++
    ("    FILES \"" ++ Text.quotedBody (pathPrefix ++ pattern ++
        if compressed then compressedSuffix else "") ++ "\"") ::
      (if compressed then ["      PREPROCESSED WITH \"lz4 -d -c\""] else []),
    FieldList.lines schema.fields ++ closingLines, ?_, ?_⟩
  · simp
  · simp

/-! ## Parameterized -/

/-- The options are left to the parameters. -/
theorem text_ofFiles_parameterized (compressed delete : Bool) :
    (ofFiles .parameterized schema pathPrefix pattern compressed delete).text =
      (ofFiles .parameterized schema pathPrefix pattern false false).text :=
  rfl

/-- What a program of one definition of capture files declares. -/
theorem parameters_ofFiles (style : Style) (compressed delete : Bool) :
    Program.parameters [ofFiles style schema pathPrefix pattern compressed delete] =
      Program.fileParameters schema.key.encoding ⟨pathPrefix, pattern, compressed, delete⟩ := by
  have hkey : (ofFiles style schema pathPrefix pattern compressed delete).key = schema.key := rfl
  unfold Program.parameters Program.firstFiles? Program.firstTopic?
  simp only [List.findSome?_cons, List.findSome?_nil, hkey]
  cases schema.key.encoding <;> rfl

/-- In a program of one definition of capture files each option is declared on a line of its own. -/
theorem splitLines_program_ofFiles (compressed delete : Bool) :
    Text.splitLines (Program.text .parameterized
        [ofFiles .parameterized schema pathPrefix pattern compressed delete]) =
      [Program.header, "", "PARAMETERS",
        "  " ++ (Parameter.pathPrefix schema.key.encoding).name ++ " DEFAULTS TO " ++
          Text.quoteString pathPrefix ++ ",",
        "  " ++ (Parameter.compressed schema.key.encoding).name ++ " DEFAULTS TO " ++
          (ParameterValue.flag compressed).render ++ ",",
        "  " ++ (Parameter.delete schema.key.encoding).name ++ " DEFAULTS TO " ++
          (ParameterValue.flag delete).render ++ ";", ""] ++
        Text.splitLines (ofFiles .parameterized schema pathPrefix pattern compressed delete).text ++
        [""] := by
  rw [Program.splitLines_text_singleton, parameters_ofFiles]
  simp [Program.fileParameters, Program.declarationLines, Program.declarationText,
    Program.declarationEnd, Program.parameterHead, ParameterValue.render, String.append_assoc]

/-! ## All of it -/

/-- **All of it**: what the options of capture files change, whatever their prefix and their pattern hold.
In a resolved definition compression adds the suffix in front of the quote that closes the literal of the
paths, and the line of the command behind it; deletion adds its line in front of the encoding clause. A
parameterized definition stays the same, and in the program of that definition alone each option is told
on its own line of the declarations and nowhere else. -/
theorem ofFiles_options_exact :
    (∀ delete, ∃ front literal back,
      Text.splitLines (ofFiles .resolved schema pathPrefix pattern false delete).text =
        front ++ ("    FILES \"" ++ literal ++ "\"") :: back ∧
      Text.splitLines (ofFiles .resolved schema pathPrefix pattern true delete).text =
        front ++ ("    FILES \"" ++ literal ++ ".lz4\"") ::
          "      PREPROCESSED WITH \"lz4 -d -c\"" :: back ∧
      Text.readBody '"' (literal ++ "\"").toList = some ((pathPrefix ++ pattern).toList, []) ∧
      Text.readBody '"' (literal ++ ".lz4\"").toList =
        some ((pathPrefix ++ pattern ++ ".lz4").toList, [])) ∧
    (∀ compressed, ∃ front back,
      Text.splitLines (ofFiles .resolved schema pathPrefix pattern compressed false).text =
        front ++ (encodingLines schema.key.encoding ++ back) ∧
      Text.splitLines (ofFiles .resolved schema pathPrefix pattern compressed true).text =
        front ++ "      THEN DELETE" :: (encodingLines schema.key.encoding ++ back)) ∧
    ∃ block,
      (∀ compressed delete,
        (ofFiles .parameterized schema pathPrefix pattern compressed delete).text = block) ∧
      ∀ compressed delete,
        Text.splitLines (Program.text .parameterized
            [ofFiles .parameterized schema pathPrefix pattern compressed delete]) =
          [Program.header, "", "PARAMETERS",
            "  " ++ (Parameter.pathPrefix schema.key.encoding).name ++ " DEFAULTS TO " ++
              Text.quoteString pathPrefix ++ ",",
            "  " ++ (Parameter.compressed schema.key.encoding).name ++ " DEFAULTS TO " ++
              (ParameterValue.flag compressed).render ++ ",",
            "  " ++ (Parameter.delete schema.key.encoding).name ++ " DEFAULTS TO " ++
              (ParameterValue.flag delete).render ++ ";", ""] ++
            Text.splitLines block ++ [""] :=
  ⟨splitLines_ofFiles_compressed schema pathPrefix pattern,
    splitLines_ofFiles_delete schema pathPrefix pattern,
    (ofFiles .parameterized schema pathPrefix pattern false false).text,
    text_ofFiles_parameterized schema pathPrefix pattern,
    splitLines_program_ofFiles schema pathPrefix pattern⟩

end

end Definition

end CaptureIngest
