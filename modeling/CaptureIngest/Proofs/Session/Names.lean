import CaptureIngest.Proofs.Source.Files
import CaptureIngest.SettingsFile
import Mathlib.Data.List.Forall2

/-!
# The names in settings are read back

Settings hold names, and a plan holds what they name. A plan that is written back as settings has the
canonical spelling of every name, and each of these is read as what it was written for.

* `Text.nameKey_of_lower`: a name in lower case without white space at its ends is its own key.
* **Names** (`Transport.ofText_name`, `Encoding.ofText_name`, `Protocol.ofText_name`,
  `Version.ofText_text`): a canonical name names what it is the name of.
* `Settings.styleName`: the name under which a style is configured.
* `Settings.Makes`: what settings and the plan that they make have to do with each other, part by part.
  It is all that there is to it (`Settings.resolve_eq_ok_iff`).
* **Plans** (`Plan.resolve_settings`): the settings that are written for a plan make this plan.
-/

namespace CaptureIngest

/-! ## Names -/

/-- A name in lower case without white space at its ends is looked up as it is. -/
theorem Text.nameKey_of_lower {s : String} (h : (trimmed s.toList).map Char.toLower = s.toList) :
    nameKey s = s := by
  rw [← String.toList_inj, nameKey, foldCase, trim, String.toList_map, String.toList_ofList]
  exact h

/-- A text names a transport iff it is found among the spellings. -/
theorem Transport.ofText_eq_ok_iff {s : String} {t : Transport} :
    ofText s = .ok t ↔ ofText? s = some t := by
  unfold ofText
  cases ofText? s <;> simp

/-- A text names an encoding iff it is found among the spellings. -/
theorem Encoding.ofText_eq_ok_iff {s : String} {e : Encoding} :
    ofText s = .ok e ↔ ofText? s = some e := by
  unfold ofText
  cases ofText? s <;> simp

/-- A text names a protocol iff it is found among the spellings. -/
theorem Protocol.ofText_eq_ok_iff {s : String} {p : Protocol} :
    ofText s = .ok p ↔ ofText? s = some p := by
  unfold ofText
  cases ofText? s <;> simp

/-- **Names**: the name of a transport names this transport. -/
theorem Transport.ofText_name (t : Transport) : ofText t.name = .ok t := by
  have hkey : Text.nameKey t.name = t.name := by
    apply Text.nameKey_of_lower
    cases t <;> decide
  rw [ofText, ofText?, hkey]
  cases t <;> rfl

/-- The name of an encoding names this encoding. -/
theorem Encoding.ofText_name (e : Encoding) : ofText e.name = .ok e := by
  have hkey : Text.nameKey e.name = e.name := by
    apply Text.nameKey_of_lower
    cases e <;> decide
  rw [ofText, ofText?, hkey]
  cases e <;> rfl

/-- Canonical names have underscores in the place of hyphens already. -/
theorem Protocol.lookupKey_name (p : Protocol) : lookupKey p.name = p.name := by
  have hkey : Text.nameKey p.name = p.name := by
    apply Text.nameKey_of_lower
    cases p <;> decide
  rw [lookupKey, hkey, ← String.toList_inj, String.toList_map]
  cases p <;> decide

/-- The name of a protocol names this protocol. -/
theorem Protocol.ofText_name (p : Protocol) : ofText p.name = .ok p := by
  rw [ofText, ofText?, lookupKey_name]
  cases p <;> rfl

/-- No character of a version is white space. -/
theorem Version.isWhiteSpace_eq_false {c : Char} (h : isVersionChar c = true) :
    Text.isWhiteSpace c = false := by
  have table : ∀ n ∈ List.range' 9 5 ++ List.range' 0x2000 11 ++
      [0x20, 0x85, 0xA0, 0x1680, 0x2028, 0x2029, 0x202F, 0x205F, 0x3000],
      isVersionChar (Char.ofNat n) = false := by decide
  rw [Bool.eq_false_iff]
  intro hblank
  simp only [Text.isWhiteSpace, Bool.or_eq_true, Bool.and_eq_true, decide_eq_true_eq, beq_iff_eq]
    at hblank
  have hchar := table c.toNat <| by
    simp only [List.mem_append, List.mem_range'_1, List.mem_cons]
    omega
  rw [Char.ofNat_toNat, h] at hchar
  cases hchar

/-- There is nothing to trim from the text of a version. -/
theorem Version.trim_text (v : Version) : Text.trim v.text = v.text := by
  have hblank : ∀ c ∈ v.text.toList, Text.isWhiteSpace c = false := by
    intro c hc
    apply isWhiteSpace_eq_false
    by_contra hchar
    exact v.not_mem_text (Bool.eq_false_iff.mpr hchar) hc
  have htrimmed : Text.trimmed v.text.toList = v.text.toList :=
    Text.trimmed_of_no_blank_end (fun c hc => hblank c (List.mem_of_mem_head? hc))
      fun c hc => hblank c (List.mem_of_mem_getLast? hc)
  rw [Text.trim, htrimmed, String.ofList_toList]

/-- The text of a version names this version. -/
theorem Version.ofText_text (v : Version) : ofText v.text = .ok v := by
  have hread : ofString? v.text = some v := ofString?_eq_some_iff.mpr rfl
  rw [ofText, trim_text, ofString, hread]

/-- The name under which a style is configured. -/
def Settings.styleName : Style → String
  | .resolved => "resolved"
  | .parameterized => "parameterized"

/-- The name of a style names this style. -/
theorem Settings.styleOfName_styleName (style : Style) :
    styleOfName (styleName style) = some style := by
  cases style <;> rfl

/-! ## Plans -/

namespace Settings

/-- Texts are read as some things iff each of them is read as the thing in its place. -/
theorem readAll_eq_ok_iff {α : Type} {read : String → Except Failure α} {texts : List String}
    {as : List α} :
    readAll read texts = .ok as ↔ List.Forall₂ (fun text a => read text = .ok a) texts as := by
  induction texts generalizing as with
  | nil => cases as <;> simp [readAll]
  | cons text texts ih =>
    rw [readAll]
    cases hread : read text with
    | error failure => cases as <;> simp [bind, Except.bind, hread]
    | ok a =>
      cases hrest : readAll read texts with
      | error failure => cases as <;> simp [bind, Except.bind, hread, ← ih, hrest]
      | ok rest => cases as <;> simp [bind, Except.bind, pure, Except.pure, hread, ← ih, hrest]

/-- Settings make a plan: every name in them names what is in its place, and all else is kept. -/
structure Makes (s : Settings) (p : Plan) : Prop where
  /-- The transport is named. -/
  transport : Transport.ofText s.transport = .ok p.transport
  /-- The encoding is named. -/
  encoding : Encoding.ofText s.encoding = .ok p.encoding
  /-- The protocols are those that are meant. -/
  protocols : requestedProtocols s.protocols = .ok p.protocols
  /-- The versions are named. -/
  versions : List.Forall₂ (fun text v => Version.ofText text = .ok v) s.versions p.versions
  /-- The style is kept. -/
  style : p.style = s.style
  /-- The directory of layouts is kept. -/
  layouts : p.layouts = s.layouts
  /-- The options of capture files are kept. -/
  files : p.options.files = s.files
  /-- The options of topics are those that are meant. -/
  bus : p.options.bus = s.bus.options

/-- Settings resolve to the plan that they make. -/
theorem resolve_eq_ok_iff {s : Settings} {p : Plan} : s.resolve = .ok p ↔ s.Makes p := by
  constructor
  · intro h
    unfold resolve at h
    cases htransport : Transport.ofText s.transport with
    | error failure => simp [htransport, bind, Except.bind] at h
    | ok transport =>
    cases hencoding : Encoding.ofText s.encoding with
    | error failure => simp [htransport, hencoding, bind, Except.bind] at h
    | ok encoding =>
    cases hprotocols : requestedProtocols s.protocols with
    | error failure => simp [htransport, hencoding, hprotocols, bind, Except.bind] at h
    | ok protocols =>
    cases hversions : readAll Version.ofText s.versions with
    | error failure => simp [htransport, hencoding, hprotocols, hversions, bind, Except.bind] at h
    | ok versions =>
    simp only [htransport, hencoding, hprotocols, hversions, bind, Except.bind, pure, Except.pure,
      Except.ok.injEq] at h
    subst h
    exact ⟨htransport, hencoding, hprotocols, readAll_eq_ok_iff.mp hversions, rfl, rfl, rfl, rfl⟩
  · rintro ⟨htransport, hencoding, hprotocols, hversions, hstyle, hlayouts, hfiles, hbus⟩
    rw [resolve, htransport, hencoding, hprotocols, readAll_eq_ok_iff.mpr hversions, ← hstyle,
      ← hlayouts, ← hfiles, ← hbus]
    rfl

/-- Settings that ask for some protocols by name make a plan for these, one for each name. -/
theorem requestedProtocols_eq_ok_iff {names : List String} (hnames : names ≠ [])
    {protocols : List Protocol} :
    requestedProtocols names = .ok protocols ↔
      List.Forall₂ (fun name p => Protocol.ofText name = .ok p) names protocols := by
  have hsome : ¬ names.isEmpty = true := by simpa using hnames
  rw [requestedProtocols, if_neg hsome, readAll_eq_ok_iff]

end Settings

/-- A limit is written as a number, and a limit of zero bytes as no limit. -/
theorem BusOptions.options_settings {o : BusOptions} (h : o.fetchLimit ≠ some 0) :
    (BusSettings.mk o.broker o.topicRoot (o.fetchLimit.getD 0)).options = o := by
  obtain ⟨broker, topicRoot, _ | limit⟩ := o
  · rfl
  · have hlimit : limit ≠ 0 := fun hzero => h (congrArg some hzero)
    rw [BusSettings.options, Option.getD_some, if_neg hlimit]

/-- **Plans**: a plan for some protocols, with no limit of zero bytes, is made of the settings that are
written for it. -/
theorem Plan.resolve_settings {p : Plan} (hprotocols : p.protocols ≠ [])
    (hlimit : p.options.bus.fetchLimit ≠ some 0) : p.settings.resolve = .ok p := by
  have hnames : p.protocols.map (·.name) ≠ [] := by simpa using hprotocols
  apply Settings.resolve_eq_ok_iff.mpr
  constructor
  case transport => exact p.transport.ofText_name
  case encoding => exact p.encoding.ofText_name
  case protocols =>
    apply (Settings.requestedProtocols_eq_ok_iff hnames).mpr
    rw [List.forall₂_map_left_iff, List.forall₂_same]
    exact fun q _ => q.ofText_name
  case versions =>
    show List.Forall₂ _ (p.versions.map (·.text)) p.versions
    rw [List.forall₂_map_left_iff, List.forall₂_same]
    exact fun v _ => v.ofText_text
  case style => rfl
  case layouts => rfl
  case files => rfl
  case bus => exact (BusOptions.options_settings hlimit).symm

end CaptureIngest
