import CaptureIngest.Proofs.Text.Lines
import CaptureIngest.Source
import CaptureIngest.Text.Quoted

/-!
# Which capture files a source finds

The files that the source of a key finds, as the engine reads a pattern: an asterisk stands for any
run of characters but a slash, and every other character for itself. What stands before the pattern
is taken to be a literal directory path.

* **Patterns in parts** (`Glob.fits_append_iff`, `Glob.fits_star_iff`): what begins a pattern and
  holds no asterisk begins the name, and an asterisk takes a run without a slash.
* **Paths in parts** (`Source.finds_csv_iff`, `Source.finds_rowBinary_iff`): the paths that a source
  finds are prefix, token, version and extension, with something free in the one or two places that
  the format leaves open.
* **Tokens** (`Protocol.fileToken_begins`): with the underscore behind it, the token of one protocol
  begins that of another for the two Citrix families only.
* **Sources apart** (`Source.shares_file_iff`): two protocols share a file, in whatever version, iff
  they are the two Citrix families in binary captures. There the place in front of the version takes
  in the rest of the longer token.
-/

namespace CaptureIngest

/-! ## Patterns in parts -/

namespace Glob

/-- A file name fits a pattern. -/
inductive Matches : List Char → List Char → Prop
  /-- Nothing fits the empty pattern but the empty name. -/
  | nil : Matches [] []
  /-- An asterisk may stand for nothing. -/
  | skip {p n : List Char} : Matches p n → Matches ('*' :: p) n
  /-- An asterisk may stand for one more character. -/
  | take {p n : List Char} {c : Char} : c ≠ '/' → Matches ('*' :: p) n → Matches ('*' :: p) (c :: n)
  /-- Any other character stands for itself. -/
  | char {p n : List Char} {c : Char} : c ≠ '*' → Matches p n → Matches (c :: p) (c :: n)

/-- What begins a pattern and holds no asterisk begins the name. -/
theorem matches_append_iff {p q n : List Char} (hp : '*' ∉ p) :
    Matches (p ++ q) n ↔ ∃ rest, n = p ++ rest ∧ Matches q rest := by
  induction p generalizing n with
  | nil => simp
  | cons c p ih =>
    rw [List.mem_cons, not_or] at hp
    constructor
    · intro h
      cases h with
      | skip h => exact absurd rfl hp.1
      | take _ h => exact absurd rfl hp.1
      | char _ h =>
        obtain ⟨rest, rfl, hrest⟩ := (ih hp.2).mp h
        exact ⟨rest, rfl, hrest⟩
    · rintro ⟨rest, rfl, hrest⟩
      exact .char (Ne.symm hp.1) ((ih hp.2).mpr ⟨rest, rfl, hrest⟩)

/-- An asterisk takes a run without a slash. -/
theorem matches_star_iff {p n : List Char} :
    Matches ('*' :: p) n ↔ ∃ run rest, '/' ∉ run ∧ n = run ++ rest ∧ Matches p rest := by
  constructor
  · intro h
    generalize hstar : '*' :: p = pattern at h
    induction h with
    | nil => cases hstar
    | @skip _ n h _ =>
      cases hstar
      exact ⟨[], n, List.not_mem_nil, rfl, h⟩
    | @take _ n c hc _ ih =>
      obtain ⟨run, rest, hrun, rfl, hrest⟩ := ih hstar
      refine ⟨c :: run, rest, ?_, rfl, hrest⟩
      rw [List.mem_cons, not_or]
      exact ⟨hc.symm, hrun⟩
    | char hc _ _ =>
      cases hstar
      exact absurd rfl hc
  · rintro ⟨run, rest, hrun, rfl, hrest⟩
    induction run with
    | nil => exact .skip hrest
    | cons c run ih =>
      rw [List.mem_cons, not_or] at hrun
      exact .take (Ne.symm hrun.1) (ih hrun.2)

/-- A name fits a pattern. -/
def Fits (pattern name : String) : Prop :=
  Matches pattern.toList name.toList

/-- A text without an asterisk, which stands for itself in a pattern. -/
def IsLiteral (s : String) : Prop :=
  '*' ∉ s.toList

instance (s : String) : Decidable (IsLiteral s) :=
  inferInstanceAs (Decidable ('*' ∉ s.toList))

/-- A text is literal iff its two parts are. -/
@[simp]
theorem isLiteral_append {s t : String} : IsLiteral (s ++ t) ↔ IsLiteral s ∧ IsLiteral t := by
  simp [IsLiteral]

/-- What begins a pattern literally begins the name. -/
theorem fits_append_iff {p q n : String} (hp : IsLiteral p) :
    Fits (p ++ q) n ↔ ∃ rest, n = p ++ rest ∧ Fits q rest := by
  unfold Fits
  rw [String.toList_append, matches_append_iff hp]
  constructor
  · rintro ⟨rest, hn, hrest⟩
    refine ⟨String.ofList rest, String.toList_inj.mp ?_, ?_⟩
    · rw [hn, String.toList_append, String.toList_ofList]
    · rw [String.toList_ofList]
      exact hrest
  · rintro ⟨rest, rfl, hrest⟩
    exact ⟨rest.toList, String.toList_append, hrest⟩

/-- A literal pattern is fitted by itself only. -/
theorem fits_literal_iff {p n : String} (hp : IsLiteral p) : Fits p n ↔ n = p := by
  have h := fits_append_iff (q := "") (n := n) hp
  rw [String.append_empty] at h
  rw [h]
  constructor
  · rintro ⟨rest, rfl, hrest⟩
    obtain rfl : rest = "" := by
      unfold Fits at hrest
      generalize hcs : rest.toList = cs at hrest
      cases hrest
      exact String.toList_inj.mp hcs
    exact String.append_empty
  · rintro rfl
    exact ⟨"", String.append_empty.symm, .nil⟩

/-- An asterisk takes a run without a slash. -/
theorem fits_star_iff {p n : String} :
    Fits ("*" ++ p) n ↔ ∃ run rest : String, '/' ∉ run.toList ∧ n = run ++ rest ∧ Fits p rest := by
  unfold Fits
  rw [String.toList_append]
  refine matches_star_iff.trans ⟨?_, ?_⟩
  · rintro ⟨run, rest, hrun, hn, hrest⟩
    refine ⟨String.ofList run, String.ofList rest, ?_, String.toList_inj.mp ?_, ?_⟩
    · rw [String.toList_ofList]
      exact hrun
    · rw [hn, String.toList_append, String.toList_ofList, String.toList_ofList]
    · rw [String.toList_ofList]
      exact hrest
  · rintro ⟨run, rest, hrun, rfl, hrest⟩
    exact ⟨run.toList, rest.toList, hrun, String.toList_append, hrest⟩

/-- An asterisk in front of a literal end takes a run without a slash. -/
theorem fits_star_literal_iff {p n : String} (hp : IsLiteral p) :
    Fits ("*" ++ p) n ↔ ∃ run : String, '/' ∉ run.toList ∧ n = run ++ p := by
  rw [fits_star_iff]
  constructor
  · rintro ⟨run, rest, hrun, rfl, hrest⟩
    obtain rfl := (fits_literal_iff hp).mp hrest
    exact ⟨run, hrun, rfl⟩
  · rintro ⟨run, hrun, rfl⟩
    exact ⟨run, p, hrun, rfl, (fits_literal_iff hp).mpr rfl⟩

end Glob

/-! ## Shifted texts -/

/-- A text that goes on with a character is not the same text shifted by others. -/
theorem Text.append_cons_ne_of_not_mem {stem : List Char} {c : Char} (hc : c ∉ stem)
    (hne : stem ≠ []) (v x y : List Char) : v ++ c :: x ≠ stem ++ (v ++ y) := by
  intro h
  rcases List.append_eq_append_iff.mp h with ⟨w, hstem, hw⟩ | ⟨w, rfl, hw⟩
  · -- the character falls into the stem
    cases w with
    | nil =>
      obtain rfl : stem = v := by simpa using hstem
      cases stem with
      | nil => exact hne rfl
      | cons d stem =>
        obtain rfl : c = d := (List.cons.inj hw).1
        exact hc List.mem_cons_self
    | cons d w =>
      obtain rfl : c = d := (List.cons.inj hw).1
      exact hc (hstem ▸ List.mem_append_right v List.mem_cons_self)
  · -- the text begins with the stem: what is left of it is shifted as before
    rw [List.append_assoc] at hw
    exact append_cons_ne_of_not_mem hc hne w x y hw.symm
termination_by v.length
decreasing_by
  subst_vars
  have := List.length_pos_of_ne_nil hne
  simp only [List.length_append]
  omega

/-! ## Tokens and versions -/

/-- With the underscore behind it, the token of one protocol begins that of another for the two
Citrix families only. -/
theorem Protocol.fileToken_begins {p q : Protocol} {e : Encoding}
    (h : Text.Begins (p.fileToken e ++ "_") (q.fileToken e ++ "_")) :
    p = q ∨ (e = .csv ∧ p = citrix ∧ q = citrixChanless) ∨
      (e = .rowBinary ∧ p = citrixChanless ∧ q = citrix) := by
  have table : ∀ e ∈ Encoding.all, ∀ p ∈ all, ∀ q ∈ all,
      Text.Begins (p.fileToken e ++ "_") (q.fileToken e ++ "_") →
        p = q ∨ (e = .csv ∧ p = citrix ∧ q = citrixChanless) ∨
          (e = .rowBinary ∧ p = citrixChanless ∧ q = citrix) := by decide
  exact table e e.mem_all p p.mem_all q q.mem_all h

/-- In one encoding no two protocols share a token. -/
theorem Protocol.fileToken_inj {p q : Protocol} {e : Encoding} (h : p.fileToken e = q.fileToken e) :
    p = q := by
  have table : ∀ e ∈ Encoding.all, ∀ p ∈ all, ∀ q ∈ all, p.fileToken e = q.fileToken e → p = q := by
    decide
  exact table e e.mem_all p p.mem_all q q.mem_all h

/-- Tokens are made of letters, digits and underscores. -/
theorem Protocol.not_mem_fileToken {c : Char} (hc : Text.isNameChar c = false) (p : Protocol)
    (e : Encoding) : c ∉ (p.fileToken e).toList := by
  have table : ∀ p ∈ all, ∀ e ∈ Encoding.all,
      (p.fileToken e).toList.all Text.isNameChar = true := by decide
  intro hmem
  have hname := List.all_eq_true.mp (table p p.mem_all e e.mem_all) c hmem
  rw [hc] at hname
  cases hname

/-- Versions are made of the characters of versions. -/
theorem Version.not_mem_text {c : Char} (hc : isVersionChar c = false) (v : Version) :
    c ∉ v.text.toList := by
  intro hmem
  have hform := v.wellFormed
  simp only [isVersionText, Bool.and_eq_true, List.all_eq_true] at hform
  have hchar := hform.2 c hmem
  rw [hc] at hchar
  cases hchar

/-- No token holds an asterisk. -/
theorem Protocol.isLiteral_fileToken (p : Protocol) (e : Encoding) :
    Glob.IsLiteral (p.fileToken e) :=
  p.not_mem_fileToken (by decide) e

/-- No version holds an asterisk. -/
theorem Version.isLiteral_text (v : Version) : Glob.IsLiteral v.text :=
  v.not_mem_text (by decide)

/-! ## Paths in parts -/

namespace Source

/-- The engine finds a path for a source. No path is found for a topic. -/
def Finds (s : Source) (path : String) : Prop :=
  ∃ files, s.files? = some files ∧ Glob.Fits files.glob path

/-- What the file names end in. -/
def fileEnding (options : SourceOptions) (e : Encoding) : String :=
  e.fileExtension ++ if options.files.compressed then compressedSuffix else ""

variable {options : SourceOptions} {p q : Protocol} {v : Version} {e : Encoding} {path : String}

/-- There is no asterisk in the ending of a file name. -/
theorem isLiteral_fileEnding : Glob.IsLiteral (fileEnding options e) := by
  unfold fileEnding
  cases e <;> split <;> decide

/-- In text captures what stands behind the version is free. -/
theorem finds_csv_iff (hliteral : Glob.IsLiteral options.files.pathPrefix) :
    (bind .file ⟨p, v, .csv⟩ options).Finds path ↔
      ∃ run : String, '/' ∉ run.toList ∧
        path = options.files.pathPrefix ++
          (p.fileToken .csv ++ "_" ++ (v.text ++ "." ++ (run ++ fileEnding options .csv))) := by
  have hglob : options.files.pathPrefix ++ FileSource.patternOf ⟨p, v, .csv⟩ ++
      (if options.files.compressed then compressedSuffix else "") =
      (options.files.pathPrefix ++ (p.fileToken .csv ++ "_" ++ (v.text ++ "."))) ++
        ("*" ++ fileEnding options .csv) := by
    have hstar : ".*" = "." ++ "*" := by decide
    simp only [FileSource.patternOf, fileEnding, hstar, String.append_assoc]
  have hfront : Glob.IsLiteral
      (options.files.pathPrefix ++ (p.fileToken .csv ++ "_" ++ (v.text ++ "."))) := by
    simp only [Glob.isLiteral_append]
    exact ⟨hliteral, ⟨p.isLiteral_fileToken .csv, by decide⟩, v.isLiteral_text, by decide⟩
  unfold Finds
  simp only [bind, files?, Option.some.injEq, exists_eq_left', FileSource.glob, hglob]
  rw [Glob.fits_append_iff hfront]
  constructor
  · rintro ⟨rest, rfl, hrest⟩
    obtain ⟨run, hrun, rfl⟩ := (Glob.fits_star_literal_iff isLiteral_fileEnding).mp hrest
    exact ⟨run, hrun, by simp only [String.append_assoc]⟩
  · rintro ⟨run, hrun, rfl⟩
    refine ⟨run ++ fileEnding options .csv, by simp only [String.append_assoc], ?_⟩
    exact (Glob.fits_star_literal_iff isLiteral_fileEnding).mpr ⟨run, hrun, rfl⟩

/-- In binary captures what stands on either side of the version is free. -/
theorem finds_rowBinary_iff (hliteral : Glob.IsLiteral options.files.pathPrefix) :
    (bind .file ⟨p, v, .rowBinary⟩ options).Finds path ↔
      ∃ minor run : String, '/' ∉ minor.toList ∧ '/' ∉ run.toList ∧
        path = options.files.pathPrefix ++ (p.fileToken .rowBinary ++ "_" ++
          (minor ++ (v.text ++ "." ++ (run ++ fileEnding options .rowBinary)))) := by
  have hglob : options.files.pathPrefix ++ FileSource.patternOf ⟨p, v, .rowBinary⟩ ++
      (if options.files.compressed then compressedSuffix else "") =
      (options.files.pathPrefix ++ (p.fileToken .rowBinary ++ "_")) ++
        ("*" ++ ((v.text ++ ".") ++ ("*" ++ fileEnding options .rowBinary))) := by
    have hstar : ".*" = "." ++ "*" := by decide
    have hminor : "_*" = "_" ++ "*" := by decide
    simp only [FileSource.patternOf, fileEnding, hstar, hminor, String.append_assoc]
  have hfront : Glob.IsLiteral (options.files.pathPrefix ++ (p.fileToken .rowBinary ++ "_")) := by
    simp only [Glob.isLiteral_append]
    exact ⟨hliteral, p.isLiteral_fileToken .rowBinary, by decide⟩
  have hversion : Glob.IsLiteral (v.text ++ ".") :=
    Glob.isLiteral_append.mpr ⟨v.isLiteral_text, by decide⟩
  unfold Finds
  simp only [bind, files?, Option.some.injEq, exists_eq_left', FileSource.glob, hglob]
  rw [Glob.fits_append_iff hfront]
  constructor
  · rintro ⟨rest, rfl, hrest⟩
    obtain ⟨minor, behind, hminor, rfl, hbehind⟩ := Glob.fits_star_iff.mp hrest
    obtain ⟨last, rfl, hlast⟩ := (Glob.fits_append_iff hversion).mp hbehind
    obtain ⟨run, hrun, rfl⟩ := (Glob.fits_star_literal_iff isLiteral_fileEnding).mp hlast
    exact ⟨minor, run, hminor, hrun, by simp only [String.append_assoc]⟩
  · rintro ⟨minor, run, hminor, hrun, rfl⟩
    refine ⟨minor ++ (v.text ++ "." ++ (run ++ fileEnding options .rowBinary)),
      by simp only [String.append_assoc], ?_⟩
    refine Glob.fits_star_iff.mpr ⟨minor, _, hminor, rfl, ?_⟩
    refine (Glob.fits_append_iff hversion).mpr ⟨run ++ fileEnding options .rowBinary, rfl, ?_⟩
    exact (Glob.fits_star_literal_iff isLiteral_fileEnding).mpr ⟨run, hrun, rfl⟩

/-! ## Sources apart -/

/-- A path that a source finds goes on behind the prefix with the token of the protocol. -/
theorem Finds.exists_begins (hliteral : Glob.IsLiteral options.files.pathPrefix)
    (h : (bind .file ⟨p, v, e⟩ options).Finds path) :
    ∃ name, path = options.files.pathPrefix ++ name ∧ Text.Begins (p.fileToken e ++ "_") name := by
  cases e with
  | csv =>
    obtain ⟨run, -, rfl⟩ := (finds_csv_iff hliteral).mp h
    exact ⟨_, rfl, _, rfl⟩
  | rowBinary =>
    obtain ⟨minor, run, -, -, rfl⟩ := (finds_rowBinary_iff hliteral).mp h
    exact ⟨_, rfl, _, rfl⟩

/-- No text capture belongs to both Citrix families: the version would have to be the same text as
itself behind the rest of the longer token. -/
theorem not_finds_citrixChanless (hliteral : Glob.IsLiteral options.files.pathPrefix)
    (h : (bind .file ⟨.citrix, v, .csv⟩ options).Finds path) :
    ¬ (bind .file ⟨.citrixChanless, v, .csv⟩ options).Finds path := by
  intro h'
  obtain ⟨run, -, hpath⟩ := (finds_csv_iff hliteral).mp h
  obtain ⟨run', -, hpath'⟩ := (finds_csv_iff hliteral).mp h'
  have htoken : Protocol.citrixChanless.fileToken .csv ++ "_" =
      Protocol.citrix.fileToken .csv ++ "_" ++ "chanless_" := by decide
  rw [hpath, String.append_right_inj, htoken] at hpath'
  have hshift := (String.append_right_inj _).mp (hpath'.trans String.append_assoc)
  have hchars := congrArg String.toList hshift
  simp only [String.toList_append, List.append_assoc] at hchars
  exact Text.append_cons_ne_of_not_mem (c := '.') (by decide) (by decide) _ _ _ hchars

/-- A binary capture of the Citrix records per channel is found for those per session too. -/
theorem exists_finds_citrixChanless (hliteral : Glob.IsLiteral options.files.pathPrefix) :
    ∃ path, (bind .file ⟨.citrix, v, .rowBinary⟩ options).Finds path ∧
      (bind .file ⟨.citrixChanless, v, .rowBinary⟩ options).Finds path := by
  refine ⟨options.files.pathPrefix ++ ("citrix_channels_" ++
    (v.text ++ "." ++ fileEnding options .rowBinary)), ?_, ?_⟩
  · have htoken : Protocol.citrix.fileToken .rowBinary ++ "_" = "citrix_channels_" := by decide
    refine (finds_rowBinary_iff hliteral).mpr ⟨"", "", by decide, by decide, ?_⟩
    rw [htoken, String.empty_append, String.empty_append]
  · have htoken : Protocol.citrixChanless.fileToken .rowBinary ++ "_" ++ "channels_" =
        "citrix_channels_" := by decide
    refine (finds_rowBinary_iff hliteral).mpr ⟨"channels_", "", by decide, by decide, ?_⟩
    rw [← htoken]
    simp only [String.empty_append, String.append_assoc]

/-- There is a file for every source. -/
theorem exists_finds (hliteral : Glob.IsLiteral options.files.pathPrefix) :
    ∃ path, (bind .file ⟨p, v, e⟩ options).Finds path := by
  cases e with
  | csv => exact ⟨_, (finds_csv_iff hliteral).mpr ⟨"", by decide, rfl⟩⟩
  | rowBinary => exact ⟨_, (finds_rowBinary_iff hliteral).mpr ⟨"", "", by decide, by decide, rfl⟩⟩

/-- **Sources apart**: in one version and encoding and under the same options, the definitions of
two protocols read no file in common, but for the two Citrix families in binary captures; those do
in every version. -/
theorem shares_file_iff (hliteral : Glob.IsLiteral options.files.pathPrefix) (v : Version)
    (e : Encoding) (p q : Protocol) :
    (∃ path, (bind .file ⟨p, v, e⟩ options).Finds path ∧
        (bind .file ⟨q, v, e⟩ options).Finds path) ↔
      p = q ∨ e = .rowBinary ∧
        (p = .citrix ∧ q = .citrixChanless ∨ p = .citrixChanless ∧ q = .citrix) := by
  constructor
  · rintro ⟨path, hp, hq⟩
    obtain ⟨name, rfl, hpname⟩ := hp.exists_begins hliteral
    obtain ⟨name', hname, hqname⟩ := hq.exists_begins hliteral
    obtain rfl := (String.append_right_inj _).mp hname
    rcases hpname.or_begins hqname with h | h
    · rcases Protocol.fileToken_begins h with rfl | ⟨rfl, rfl, rfl⟩ | ⟨rfl, rfl, rfl⟩
      · exact .inl rfl
      · exact absurd hq (not_finds_citrixChanless hliteral hp)
      · exact .inr ⟨rfl, .inr ⟨rfl, rfl⟩⟩
    · rcases Protocol.fileToken_begins h with rfl | ⟨rfl, rfl, rfl⟩ | ⟨rfl, rfl, rfl⟩
      · exact .inl rfl
      · exact absurd hp (not_finds_citrixChanless hliteral hq)
      · exact .inr ⟨rfl, .inl ⟨rfl, rfl⟩⟩
  · rintro (rfl | ⟨rfl, ⟨rfl, rfl⟩ | ⟨rfl, rfl⟩⟩)
    · obtain ⟨path, h⟩ := exists_finds (p := p) (v := v) (e := e) hliteral
      exact ⟨path, h, h⟩
    · exact exists_finds_citrixChanless hliteral
    · obtain ⟨path, h, h'⟩ := exists_finds_citrixChanless (v := v) hliteral
      exact ⟨path, h', h⟩

/-- The options of uncompressed captures below a directory. -/
def directoryOptions : SourceOptions :=
  ⟨⟨"/data/", false, true⟩, .default⟩

/-- Text captures of the two Citrix families are apart. -/
theorem not_shares_file_citrix_csv :
    Glob.IsLiteral directoryOptions.files.pathPrefix ∧
      ¬ ∃ path, (bind .file ⟨.citrix, .v30, .csv⟩ directoryOptions).Finds path ∧
        (bind .file ⟨.citrixChanless, .v30, .csv⟩ directoryOptions).Finds path := by
  refine ⟨by decide, ?_⟩
  rw [shares_file_iff (by decide)]
  decide

/-- Binary captures of the two Citrix families are not: one file is found for both. -/
theorem finds_citrix_channels_twice :
    (bind .file ⟨.citrix, .v30, .rowBinary⟩ directoryOptions).Finds
        "/data/citrix_channels_v30.chb" ∧
      (bind .file ⟨.citrixChanless, .v30, .rowBinary⟩ directoryOptions).Finds
        "/data/citrix_channels_v30.chb" :=
  ⟨(finds_rowBinary_iff (by decide)).mpr ⟨"", "", by decide, by decide, by decide⟩,
    (finds_rowBinary_iff (by decide)).mpr ⟨"channels_", "", by decide, by decide, by decide⟩⟩

end Source

end CaptureIngest
