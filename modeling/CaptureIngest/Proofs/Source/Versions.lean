import CaptureIngest.Proofs.Source.Files

/-!
# Text captures of two versions

The name of a text capture is the token, the version behind an underscore, a dot, something free and
the extension. The free part may hold dots, and a version may too: so a version does not end at the
first dot behind it, and the captures of a minor revision are found for the version itself.

* `Text.Meets s t`: one of two texts begins the other. Two patterns with a free part behind them
  share a name iff their fronts meet (`Source.exists_finds_csv_iff`).
* `Version.Overlap s t`: two versions are the same, or one is a minor revision of the other.
* **Fronts** (`Source.meets_front_iff`): fronts of one protocol meet iff the versions overlap. Those
  of two protocols do for the Citrix families only, where a version may begin with the rest of the
  longer token.
* **Versions apart** (`Source.shares_text_capture_iff`): which text captures are found twice.
-/

namespace CaptureIngest

/-! ## Texts that meet -/

namespace Text

/-- One of two texts begins the other. -/
def Meets (s t : String) : Prop :=
  Begins s t ∨ Begins t s

instance (s t : String) : Decidable (Meets s t) :=
  inferInstanceAs (Decidable (_ ∨ _))

/-- To meet is the same from both sides. -/
theorem Meets.symm {s t : String} (h : Meets s t) : Meets t s :=
  Or.symm h

/-- A common front plays no part in whether a text begins another. -/
theorem begins_append_left_iff {a s t : String} : Begins (a ++ s) (a ++ t) ↔ Begins s t := by
  constructor
  · rintro ⟨u, h⟩
    rw [String.append_assoc, String.append_right_inj] at h
    exact ⟨u, h⟩
  · rintro ⟨u, rfl⟩
    exact ⟨u, String.append_assoc.symm⟩

/-- A common front plays no part in whether two texts meet. -/
theorem meets_append_left_iff {a s t : String} : Meets (a ++ s) (a ++ t) ↔ Meets s t :=
  or_congr begins_append_left_iff begins_append_left_iff

/-- The fronts of texts that meet meet. -/
theorem Meets.of_append {a b s t : String} (h : Meets (a ++ s) (b ++ t)) : Meets a b := by
  rcases h with ⟨u, hu⟩ | ⟨u, hu⟩
  · have ha : Begins a (b ++ t) := ⟨s ++ u, by rw [hu, String.append_assoc]⟩
    exact ha.or_begins ⟨t, rfl⟩
  · have hb : Begins b (a ++ s) := ⟨t ++ u, by rw [hu, String.append_assoc]⟩
    exact Begins.or_begins ⟨s, rfl⟩ hb

/-- What holds no dot and begins a text with a dot behind it begins the text. -/
theorem Begins.of_append_dot {stem s : String} (hstem : '.' ∉ stem.toList)
    (h : Begins stem (s ++ ".")) : Begins stem s := by
  rw [begins_iff, String.toList_append] at h
  rcases List.prefix_concat_iff.mp h with heq | hprefix
  · rw [heq] at hstem
    exact absurd (List.mem_append_right s.toList List.mem_cons_self) hstem
  · exact begins_iff.mpr hprefix

/-- A text with a dot behind it meets what begins with a stem without dots iff it begins with the
stem itself and its rest meets the other rest. -/
theorem meets_append_dot_iff {stem s t : String} (hstem : '.' ∉ stem.toList) :
    Meets (s ++ ".") (stem ++ t) ↔ ∃ rest, s = stem ++ rest ∧ Meets (rest ++ ".") t := by
  constructor
  · intro h
    have hbegins : Begins stem s := by
      have hfronts : Meets (s ++ ".") stem := by
        rw [← String.append_empty (s := s ++ ".")] at h
        exact h.of_append
      rcases hfronts with ⟨u, hu⟩ | hbegins
      · -- the dot would fall into the stem
        refine absurd ?_ hstem
        rw [hu]
        simp
      · exact hbegins.of_append_dot hstem
    obtain ⟨rest, rfl⟩ := hbegins
    rw [String.append_assoc, meets_append_left_iff] at h
    exact ⟨rest, rfl, h⟩
  · rintro ⟨rest, rfl, h⟩
    rw [String.append_assoc, meets_append_left_iff]
    exact h

end Text

/-! ## Versions that overlap -/

/-- Two versions are the same, or one is a minor revision of the other: it goes on with a dot. -/
def Version.Overlap (s t : String) : Prop :=
  s = t ∨ (∃ minor, t = s ++ "." ++ minor) ∨ ∃ minor, s = t ++ "." ++ minor

/-- A version with a dot behind it begins another one iff that is the same or a minor revision. -/
theorem Version.begins_dot_iff {s t : String} :
    Text.Begins (s ++ ".") (t ++ ".") ↔ s = t ∨ ∃ minor, t = s ++ "." ++ minor := by
  have hinj : (s ++ ".").toList = t.toList ++ ['.'] ↔ s = t := by
    rw [String.toList_append]
    show s.toList ++ ['.'] = t.toList ++ ['.'] ↔ s = t
    rw [List.append_left_inj, String.toList_inj]
  rw [Text.begins_iff, String.toList_append (s := t)]
  show (s ++ ".").toList <+: t.toList ++ ['.'] ↔ _
  rw [List.prefix_concat_iff, hinj, ← Text.begins_iff]
  rfl

/-- Two versions with a dot behind them meet iff the versions overlap. -/
theorem Version.meets_dot_iff {s t : String} :
    Text.Meets (s ++ ".") (t ++ ".") ↔ Version.Overlap s t := by
  unfold Text.Meets Version.Overlap
  rw [begins_dot_iff, begins_dot_iff]
  constructor
  · rintro ((h | h) | (h | h))
    · exact .inl h
    · exact .inr (.inl h)
    · exact .inl h.symm
    · exact .inr (.inr h)
  · rintro (h | h | h)
    · exact .inl (.inl h)
    · exact .inl (.inr h)
    · exact .inr (.inr h)

instance (s t : String) : Decidable (Version.Overlap s t) :=
  decidable_of_iff _ Version.meets_dot_iff

/-- An earlier version than the one that is built in. -/
def Version.v29 : Version := ⟨"v29", by decide⟩

/-- A minor revision of it. -/
def Version.v29Minor : Version := ⟨"v29.1", by decide⟩

/-- A version that begins with the rest of the longer Citrix token. -/
def Version.chanlessV30 : Version := ⟨"chanless_v30", by decide⟩

namespace Source

variable {options : SourceOptions} {p q : Protocol} {v w : Version} {path : String}

/-! ## Fronts -/

/-- What the name of a text capture begins with. -/
def front (p : Protocol) (v : Version) : String :=
  p.fileToken .csv ++ "_" ++ (v.text ++ ".")

/-- No front holds a slash. -/
theorem slash_not_mem_front : '/' ∉ (front p v).toList := by
  have htoken : '/' ∉ (p.fileToken .csv).toList := p.not_mem_fileToken (by decide) .csv
  have hversion : '/' ∉ v.text.toList := v.not_mem_text (by decide)
  simp [front, htoken, hversion]

/-- Behind the front what a text capture is named is free. -/
theorem finds_csv_iff_front (hliteral : Glob.IsLiteral options.files.pathPrefix) :
    (bind .file ⟨p, v, .csv⟩ options).Finds path ↔
      ∃ run : String, '/' ∉ run.toList ∧
        path = options.files.pathPrefix ++ (front p v ++ (run ++ fileEnding options .csv)) := by
  rw [finds_csv_iff hliteral]
  simp only [front, String.append_assoc]

/-- A file whose name is a front and the ending is found for all fronts that begin it. -/
theorem finds_of_begins_front (hliteral : Glob.IsLiteral options.files.pathPrefix)
    (h : Text.Begins (front p v) (front q w)) :
    (bind .file ⟨p, v, .csv⟩ options).Finds
      (options.files.pathPrefix ++ (front q w ++ fileEnding options .csv)) := by
  obtain ⟨run, hrun⟩ := h
  have hslash : '/' ∉ run.toList := by
    intro hmem
    apply slash_not_mem_front (p := q) (v := w)
    rw [hrun, String.toList_append]
    exact List.mem_append_right _ hmem
  refine (finds_csv_iff_front hliteral).mpr ⟨run, hslash, ?_⟩
  rw [hrun]
  simp only [String.append_assoc]

/-- Two text sources share a file iff their fronts meet. -/
theorem exists_finds_csv_iff (hliteral : Glob.IsLiteral options.files.pathPrefix) :
    (∃ path, (bind .file ⟨p, v, .csv⟩ options).Finds path ∧
        (bind .file ⟨q, w, .csv⟩ options).Finds path) ↔
      Text.Meets (front p v) (front q w) := by
  constructor
  · rintro ⟨path, hp, hq⟩
    obtain ⟨run, -, rfl⟩ := (finds_csv_iff_front hliteral).mp hp
    obtain ⟨run', -, hpath⟩ := (finds_csv_iff_front hliteral).mp hq
    have hname := (String.append_right_inj _).mp hpath
    exact Text.Begins.or_begins ⟨_, rfl⟩ ⟨_, hname⟩
  · rintro (h | h)
    · exact ⟨_, finds_of_begins_front hliteral h, finds_of_begins_front hliteral ⟨"", by simp⟩⟩
    · exact ⟨_, finds_of_begins_front hliteral ⟨"", by simp⟩, finds_of_begins_front hliteral h⟩

/-- The fronts of the two Citrix families meet iff the version of the one begins with the rest of the
other's token and overlaps the other version from there on. -/
theorem meets_front_citrix_iff :
    Text.Meets (front .citrix v) (front .citrixChanless w) ↔
      ∃ s, v.text = "chanless_" ++ s ∧ Version.Overlap s w.text := by
  have hfront : front .citrixChanless w =
      Protocol.citrix.fileToken .csv ++ "_" ++ ("chanless_" ++ (w.text ++ ".")) := by
    have htoken : Protocol.citrixChanless.fileToken .csv ++ "_" =
        Protocol.citrix.fileToken .csv ++ "_" ++ "chanless_" := by decide
    rw [front, htoken, String.append_assoc]
  rw [hfront]
  unfold front
  rw [Text.meets_append_left_iff, Text.meets_append_dot_iff (by decide)]
  simp only [Version.meets_dot_iff]

/-- **Fronts**: those of one protocol meet iff the versions overlap, and those of two protocols for
the Citrix families only. -/
theorem meets_front_iff :
    Text.Meets (front p v) (front q w) ↔
      (p = q ∧ Version.Overlap v.text w.text) ∨
      (p = .citrix ∧ q = .citrixChanless ∧ ∃ s, v.text = "chanless_" ++ s ∧
        Version.Overlap s w.text) ∨
      (p = .citrixChanless ∧ q = .citrix ∧ ∃ s, w.text = "chanless_" ++ s ∧
        Version.Overlap s v.text) := by
  constructor
  · intro h
    have htokens : Text.Meets (p.fileToken .csv ++ "_") (q.fileToken .csv ++ "_") := h.of_append
    have hcases : p = q ∨ (p = .citrix ∧ q = .citrixChanless) ∨
        (p = .citrixChanless ∧ q = .citrix) := by
      rcases htokens with h | h
      · rcases Protocol.fileToken_begins h with rfl | ⟨-, hp, hq⟩ | ⟨he, -, -⟩
        · exact .inl rfl
        · exact .inr (.inl ⟨hp, hq⟩)
        · cases he
      · rcases Protocol.fileToken_begins h with rfl | ⟨-, hq, hp⟩ | ⟨he, -, -⟩
        · exact .inl rfl
        · exact .inr (.inr ⟨hp, hq⟩)
        · cases he
    rcases hcases with rfl | ⟨rfl, rfl⟩ | ⟨rfl, rfl⟩
    · refine .inl ⟨rfl, ?_⟩
      exact Version.meets_dot_iff.mp (Text.meets_append_left_iff.mp h)
    · exact .inr (.inl ⟨rfl, rfl, meets_front_citrix_iff.mp h⟩)
    · exact .inr (.inr ⟨rfl, rfl, meets_front_citrix_iff.mp h.symm⟩)
  · rintro (⟨rfl, h⟩ | ⟨rfl, rfl, h⟩ | ⟨rfl, rfl, h⟩)
    · exact Text.meets_append_left_iff.mpr (Version.meets_dot_iff.mpr h)
    · exact meets_front_citrix_iff.mpr h
    · exact (meets_front_citrix_iff.mpr h).symm

/-! ## Versions apart -/

/-- **Versions apart**: under the same options, the text sources of two protocols and two versions
find no file in common, but where the versions overlap and the protocol is the same, or where they
are the two Citrix families and a version makes up for the difference of the tokens. -/
theorem shares_text_capture_iff (hliteral : Glob.IsLiteral options.files.pathPrefix)
    (p q : Protocol) (v w : Version) :
    (∃ path, (bind .file ⟨p, v, .csv⟩ options).Finds path ∧
        (bind .file ⟨q, w, .csv⟩ options).Finds path) ↔
      (p = q ∧ Version.Overlap v.text w.text) ∨
      (p = .citrix ∧ q = .citrixChanless ∧ ∃ s, v.text = "chanless_" ++ s ∧
        Version.Overlap s w.text) ∨
      (p = .citrixChanless ∧ q = .citrix ∧ ∃ s, w.text = "chanless_" ++ s ∧
        Version.Overlap s v.text) := by
  rw [exists_finds_csv_iff hliteral]
  exact meets_front_iff

/-- Text captures of two versions in a row are apart. -/
theorem not_shares_text_capture_v29_v30 :
    Glob.IsLiteral directoryOptions.files.pathPrefix ∧
      ¬ ∃ path, (bind .file ⟨.tcp, .v29, .csv⟩ directoryOptions).Finds path ∧
        (bind .file ⟨.tcp, .v30, .csv⟩ directoryOptions).Finds path := by
  have hliteral : Glob.IsLiteral directoryOptions.files.pathPrefix := by decide
  refine ⟨hliteral, ?_⟩
  rw [shares_text_capture_iff hliteral]
  rintro (⟨-, h⟩ | ⟨h, -⟩ | ⟨h, -⟩)
  · exact absurd h (by decide)
  · cases h
  · cases h

/-- Those of a version and its minor revision are not, and neither are those of the two Citrix
families where the version has the rest of the longer token in front. -/
theorem finds_text_captures_twice :
    Version.v29 ≠ .v29Minor ∧
    (bind .file ⟨.tcp, .v29, .csv⟩ directoryOptions).Finds "/data/tcp_v29.1.csv" ∧
    (bind .file ⟨.tcp, .v29Minor, .csv⟩ directoryOptions).Finds "/data/tcp_v29.1.csv" ∧
    Version.chanlessV30 ≠ .v30 ∧
    (bind .file ⟨.citrix, .chanlessV30, .csv⟩ directoryOptions).Finds
      "/data/citrix_chanless_v30.csv" ∧
    (bind .file ⟨.citrixChanless, .v30, .csv⟩ directoryOptions).Finds
      "/data/citrix_chanless_v30.csv" := by
  have hliteral : Glob.IsLiteral directoryOptions.files.pathPrefix := by decide
  refine ⟨by decide, (finds_csv_iff hliteral).mpr ⟨"1.", by decide, by decide⟩,
    (finds_csv_iff hliteral).mpr ⟨"", by decide, by decide⟩, by decide,
    (finds_csv_iff hliteral).mpr ⟨"", by decide, by decide⟩,
    (finds_csv_iff hliteral).mpr ⟨"", by decide, by decide⟩⟩

end Source

end CaptureIngest
