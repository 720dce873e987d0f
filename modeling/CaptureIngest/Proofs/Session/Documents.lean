import CaptureIngest.Proofs.Session.Names
import CaptureIngest.Proofs.Session.Stages

/-!
# Documents override the default settings

A settings file is a document, which need not name every setting. The settings in it are the default
ones but for what it names, in the document itself and in its two tables; a key that names no setting
makes it no settings file.

* `Settings.IsDocument entries`: every key in the tree of the document names a setting, and every value
  is of the type that its key requires.
* `Settings.Overrides entries s`: the settings `s` are what the document names, and elsewhere the default
  ones.
* `Settings.HasOtherKey entries`: the document or one of its tables has a key that names no setting.
* **Part by part** (`Settings.ofEntries_eq_ok_iff` and its like for the tables): the settings that are
  read from a tree, by what is read under each key.
* **One key** (`Settings.exists_setting_of_typed`): a value of the right type is read, and otherwise the
  default stands.
* **Documents** (`IsDocument.exists_reads`, `HasOtherKey.not_reads`): what is read from a document of
  settings overrides the default ones, and nothing is read from one with another key.
* **Files** (`run_loadSettings_of_hasDocument`): what a session loads from a file with a document in it.
* **Documents override** (`Settings.documents_override`): all of this, for trees and for files.
-/

namespace CaptureIngest

namespace Settings

open Toml

/-! ## What values say -/

/-- The value is this string. -/
def IsText (v : Value) (s : String) : Prop :=
  v = .text s

/-- The value is this truth value. -/
def IsFlag (v : Value) (b : Bool) : Prop :=
  v = .boolean b

/-- The value is this number, which is not negative. -/
def IsSize (v : Value) (n : UInt64) : Prop :=
  v = .integer n.toNat

/-- The value is an array of these strings. -/
def IsTexts (v : Value) (texts : List String) : Prop :=
  v = .array (texts.map .text)

/-- The value is the name of this style. -/
def IsStyle (v : Value) (style : Style) : Prop :=
  v = .text (styleName style)

/-- The value is the path of a directory. -/
def IsDirectory (v : Value) (directory : Option String) : Prop :=
  ∃ path, IsText v path ∧ directory = some path

/-- What is under a key is a value of a type, if anything is. -/
def Typed {α : Type} (entries : Entries) (key : String) (isValue : Value → α → Prop) : Prop :=
  ∀ v, entries.lookup key = some v → ∃ a, isValue v a

/-- What is set is the value under a key, and the default if the key is not there. -/
def Sets {α : Type} (entries : Entries) (key : String) (isValue : Value → α → Prop) (default a : α) :
    Prop :=
  match entries.lookup key with
  | none => a = default
  | some v => isValue v a

/-! ## Documents and what they set -/

/-- The table for capture files: each key names a setting, and each value is of its type. -/
structure IsFilesTable (entries : Entries) : Prop where
  /-- No other key is there. -/
  known : ∀ e ∈ entries, e.1 ∈ ["prefix", "compressed", "delete"]
  /-- The prefix is a string. -/
  pathPrefix : Typed entries "prefix" IsText
  /-- Compression is a truth value. -/
  compressed : Typed entries "compressed" IsFlag
  /-- So is deletion. -/
  delete : Typed entries "delete" IsFlag

/-- The table for topics: each key names a setting, and each value is of its type. -/
structure IsBusTable (entries : Entries) : Prop where
  /-- No other key is there. -/
  known : ∀ e ∈ entries, e.1 ∈ ["broker", "namespace", "max_message_size"]
  /-- The brokers are a string. -/
  broker : Typed entries "broker" IsText
  /-- So is the first segment of topics. -/
  topicRoot : Typed entries "namespace" IsText
  /-- The fetch limit is a number. -/
  maxMessageSize : Typed entries "max_message_size" IsSize

/-- The tree of a document of settings: each key names a setting, and each value is of its type. -/
structure IsDocument (entries : Entries) : Prop where
  /-- No other key is there. -/
  known : ∀ e ∈ entries, e.1 ∈
    ["transport", "encoding", "style", "protocols", "versions", "layouts", "files", "bus"]
  /-- The transport is a string. -/
  transport : Typed entries "transport" IsText
  /-- So is the encoding. -/
  encoding : Typed entries "encoding" IsText
  /-- The style is the name of one. -/
  style : Typed entries "style" IsStyle
  /-- The protocols are an array of strings. -/
  protocols : Typed entries "protocols" IsTexts
  /-- So are the versions. -/
  versions : Typed entries "versions" IsTexts
  /-- The directory of layouts is a path. -/
  layouts : Typed entries "layouts" IsDirectory
  /-- What is said of capture files is a table. -/
  files : ∀ v, entries.lookup "files" = some v →
    ∃ origin table, v = .table origin table ∧ IsFilesTable table
  /-- So is what is said of topics. -/
  bus : ∀ v, entries.lookup "bus" = some v → ∃ origin table, v = .table origin table ∧ IsBusTable table

/-- The options of capture files are what the table names, and elsewhere the default ones. -/
structure OverridesFiles (entries : Entries) (o : FileOptions) : Prop where
  /-- The prefix. -/
  pathPrefix : Sets entries "prefix" IsText default.files.pathPrefix o.pathPrefix
  /-- The compression. -/
  compressed : Sets entries "compressed" IsFlag default.files.compressed o.compressed
  /-- The deletion. -/
  delete : Sets entries "delete" IsFlag default.files.delete o.delete

/-- The settings for topics are what the table names, and elsewhere the default ones. -/
structure OverridesBus (entries : Entries) (o : BusSettings) : Prop where
  /-- The brokers. -/
  broker : Sets entries "broker" IsText default.bus.broker o.broker
  /-- The first segment of topics. -/
  topicRoot : Sets entries "namespace" IsText default.bus.topicRoot o.topicRoot
  /-- The fetch limit. -/
  maxMessageSize : Sets entries "max_message_size" IsSize default.bus.maxMessageSize o.maxMessageSize

/-- The value is a table that overrides the default options of capture files so. -/
def IsFiles (v : Value) (o : FileOptions) : Prop :=
  ∃ origin table, v = .table origin table ∧ OverridesFiles table o

/-- The value is a table that overrides the default settings for topics so. -/
def IsBus (v : Value) (o : BusSettings) : Prop :=
  ∃ origin table, v = .table origin table ∧ OverridesBus table o

/-- The settings are what the document names, and elsewhere the default ones. -/
structure Overrides (entries : Entries) (s : Settings) : Prop where
  /-- The transport. -/
  transport : Sets entries "transport" IsText default.transport s.transport
  /-- The encoding. -/
  encoding : Sets entries "encoding" IsText default.encoding s.encoding
  /-- The style. -/
  style : Sets entries "style" IsStyle default.style s.style
  /-- The protocols. -/
  protocols : Sets entries "protocols" IsTexts default.protocols s.protocols
  /-- The versions. -/
  versions : Sets entries "versions" IsTexts default.versions s.versions
  /-- The directory of layouts. -/
  layouts : Sets entries "layouts" IsDirectory default.layouts s.layouts
  /-- The options of capture files. -/
  files : Sets entries "files" IsFiles default.files s.files
  /-- The settings for topics. -/
  bus : Sets entries "bus" IsBus default.bus s.bus

/-- A table stands under a key, alone or among several with the same header. -/
def HasTable (entries : Entries) (key : String) (table : Entries) : Prop :=
  (∃ origin, entries.lookup key = some (.table origin table)) ∨
    ∃ items, entries.lookup key = some (.tables items) ∧ table ∈ items

/-- The document or one of its tables has a key that names no setting. -/
inductive HasOtherKey (entries : Entries) : Prop
  /-- The document itself. -/
  | document {e : String × Value} : e ∈ entries →
    e.1 ∉ ["transport", "encoding", "style", "protocols", "versions", "layouts", "files", "bus"] →
    HasOtherKey entries
  /-- The table for capture files. -/
  | files {table : Entries} {e : String × Value} : HasTable entries "files" table → e ∈ table →
    e.1 ∉ ["prefix", "compressed", "delete"] → HasOtherKey entries
  /-- The table for topics. -/
  | bus {table : Entries} {e : String × Value} : HasTable entries "bus" table → e ∈ table →
    e.1 ∉ ["broker", "namespace", "max_message_size"] → HasOtherKey entries

/-! ## Part by part -/

/-- The keys of a table pass the check iff all of them are known. -/
theorem checkKeys_eq_ok_iff {known : List String} {entries : Entries} :
    checkKeys known entries = .ok () ↔ ∀ e ∈ entries, e.1 ∈ known := by
  unfold checkKeys
  cases hfind : entries.find? fun e => !known.contains e.1 with
  | none => simpa using hfind
  | some e =>
    have hmem := List.mem_of_find?_eq_some hfind
    have hother := List.find?_some hfind
    simp only [reduceCtorEq, false_iff]
    intro hknown
    simp [hknown e hmem] at hother

/-- The options of capture files that are read from a table, part by part. -/
structure ReadsFiles (entries : Entries) (o : FileOptions) : Prop where
  /-- The keys are known. -/
  known : checkKeys fileKeys entries = .ok ()
  /-- The prefix is read. -/
  pathPrefix : setting entries "prefix" asText FileOptions.default.pathPrefix = .ok o.pathPrefix
  /-- The compression is read. -/
  compressed : setting entries "compressed" asFlag FileOptions.default.compressed = .ok o.compressed
  /-- The deletion is read. -/
  delete : setting entries "delete" asFlag FileOptions.default.delete = .ok o.delete

/-- A table of options of capture files is read iff each of its parts is. -/
theorem filesOfEntries_eq_ok_iff {entries : Entries} {o : FileOptions} :
    filesOfEntries entries = .ok o ↔ ReadsFiles entries o := by
  simp only [filesOfEntries, bind_eq_ok_iff]
  constructor
  · rintro ⟨⟨⟩, hknown, pathPrefix, hprefix, compressed, hcompressed, delete, hdelete, ⟨⟩⟩
    exact ⟨hknown, hprefix, hcompressed, hdelete⟩
  · rintro ⟨hknown, hprefix, hcompressed, hdelete⟩
    exact ⟨(), hknown, _, hprefix, _, hcompressed, _, hdelete, rfl⟩

/-- The settings for topics that are read from a table, part by part. -/
structure ReadsBus (entries : Entries) (o : BusSettings) : Prop where
  /-- The keys are known. -/
  known : checkKeys busKeys entries = .ok ()
  /-- The brokers are read. -/
  broker : setting entries "broker" asText BusSettings.default.broker = .ok o.broker
  /-- The first segment of topics is read. -/
  topicRoot : setting entries "namespace" asText BusSettings.default.topicRoot = .ok o.topicRoot
  /-- The fetch limit is read. -/
  maxMessageSize :
    setting entries "max_message_size" asSize BusSettings.default.maxMessageSize =
      .ok o.maxMessageSize

/-- A table of settings for topics is read iff each of its parts is. -/
theorem busOfEntries_eq_ok_iff {entries : Entries} {o : BusSettings} :
    busOfEntries entries = .ok o ↔ ReadsBus entries o := by
  simp only [busOfEntries, bind_eq_ok_iff]
  constructor
  · rintro ⟨⟨⟩, hknown, broker, hbroker, topicRoot, hroot, size, hsize, ⟨⟩⟩
    exact ⟨hknown, hbroker, hroot, hsize⟩
  · rintro ⟨hknown, hbroker, hroot, hsize⟩
    exact ⟨(), hknown, _, hbroker, _, hroot, _, hsize, rfl⟩

/-- What is read of a section: its entries, and what these say. -/
def ReadsSection {α : Type} (entries : Entries) (key : String) (known : List String)
    (read : Entries → Except SettingsFault α) (a : α) : Prop :=
  ∃ table, setting entries key (asSection known) [] = .ok table ∧ read table = .ok a

/-- The settings that are read from a document, part by part. -/
structure Reads (entries : Entries) (s : Settings) : Prop where
  /-- The keys are known. -/
  known : checkKeys keys entries = .ok ()
  /-- The transport is read. -/
  transport : setting entries "transport" asText default.transport = .ok s.transport
  /-- The encoding is read. -/
  encoding : setting entries "encoding" asText default.encoding = .ok s.encoding
  /-- The style is read. -/
  style : setting entries "style" asStyle default.style = .ok s.style
  /-- The protocols are read. -/
  protocols : setting entries "protocols" asTexts default.protocols = .ok s.protocols
  /-- The versions are read. -/
  versions : setting entries "versions" asTexts default.versions = .ok s.versions
  /-- The directory of layouts is read. -/
  layouts : setting entries "layouts" (fun v => (asText v).map some) default.layouts = .ok s.layouts
  /-- The options of capture files are read. -/
  files : ReadsSection entries "files" fileKeys filesOfEntries s.files
  /-- The settings for topics are read. -/
  bus : ReadsSection entries "bus" busKeys busOfEntries s.bus

/-- A document is read iff each of its parts is. -/
theorem ofEntries_eq_ok_iff {entries : Entries} {s : Settings} :
    ofEntries entries = .ok s ↔ Reads entries s := by
  simp only [ofEntries, bind_eq_ok_iff]
  constructor
  · rintro ⟨⟨⟩, hknown, transport, htransport, encoding, hencoding, style, hstyle, protocols,
      hprotocols, versions, hversions, layouts, hlayouts, table, htable, files, hfiles, table',
      htable', bus, hbus, ⟨⟩⟩
    exact ⟨hknown, htransport, hencoding, hstyle, hprotocols, hversions, hlayouts,
      ⟨table, htable, hfiles⟩, ⟨table', htable', hbus⟩⟩
  · rintro ⟨hknown, htransport, hencoding, hstyle, hprotocols, hversions, hlayouts,
      ⟨table, htable, hfiles⟩, ⟨table', htable', hbus⟩⟩
    exact ⟨(), hknown, _, htransport, _, hencoding, _, hstyle, _, hprotocols, _, hversions, _,
      hlayouts, table, htable, _, hfiles, table', htable', _, hbus, rfl⟩

/-! ## One key -/

/-- A value of the right type is read, and otherwise the default stands. -/
theorem exists_setting_of_typed {α : Type} {isValue : Value → α → Prop} {as : Value → Option α}
    {entries : Entries} {key : String} (default : α) (h : Typed entries key isValue)
    (has : ∀ {v a}, isValue v a → as v = some a) :
    ∃ a, setting entries key as default = .ok a ∧ Sets entries key isValue default a := by
  unfold setting Sets
  cases hlookup : entries.lookup key with
  | none => exact ⟨default, rfl, rfl⟩
  | some v =>
    obtain ⟨a, hvalue⟩ := h v hlookup
    simp only [has hvalue]
    exact ⟨a, rfl, hvalue⟩

/-- A string is read as its text. -/
theorem asText_of_isText {v : Value} {s : String} (h : IsText v s) : asText v = some s := by
  rw [h]
  rfl

/-- A truth value is read as what it says. -/
theorem asFlag_of_isFlag {v : Value} {b : Bool} (h : IsFlag v b) : asFlag v = some b := by
  rw [h]
  rfl

/-- A number of 64 bits is read as itself. -/
theorem asSize_of_isSize {v : Value} {n : UInt64} (h : IsSize v n) : asSize v = some n := by
  rw [h, asSize, if_pos (Int.natCast_nonneg n.toNat), Int.toNat_natCast, UInt64.ofNat_toNat]

/-- A list of strings is read string by string. -/
theorem textsOf_map (texts : List String) : textsOf (texts.map .text) = some texts := by
  induction texts with
  | nil => rfl
  | cons s texts ih => simp [textsOf, asText, ih]

/-- An array of strings is read as their texts. -/
theorem asTexts_of_isTexts {v : Value} {texts : List String} (h : IsTexts v texts) :
    asTexts v = some texts := by
  rw [h, asTexts, textsOf_map]

/-- The name of a style is read as the style. -/
theorem asStyle_of_isStyle {v : Value} {style : Style} (h : IsStyle v style) :
    asStyle v = some style := by
  rw [h]
  cases style <;> rfl

/-- A path is read as a directory of layouts. -/
theorem asDirectory_of_isDirectory {v : Value} {directory : Option String}
    (h : IsDirectory v directory) : (asText v).map some = some directory := by
  obtain ⟨path, hpath, rfl⟩ := h
  rw [asText_of_isText hpath, Option.map_some]

/-! ## Documents -/

/-- A table of options of capture files is read, and overrides the default ones. -/
theorem IsFilesTable.exists_reads {entries : Entries} (h : IsFilesTable entries) :
    ∃ o, ReadsFiles entries o ∧ OverridesFiles entries o := by
  obtain ⟨pathPrefix, hprefix, setsPrefix⟩ := exists_setting_of_typed _ h.pathPrefix asText_of_isText
  obtain ⟨compressed, hcompressed, setsCompressed⟩ :=
    exists_setting_of_typed _ h.compressed asFlag_of_isFlag
  obtain ⟨delete, hdelete, setsDelete⟩ := exists_setting_of_typed _ h.delete asFlag_of_isFlag
  exact ⟨⟨pathPrefix, compressed, delete⟩,
    ⟨checkKeys_eq_ok_iff.mpr h.known, hprefix, hcompressed, hdelete⟩,
    ⟨setsPrefix, setsCompressed, setsDelete⟩⟩

/-- A table of settings for topics is read, and overrides the default ones. -/
theorem IsBusTable.exists_reads {entries : Entries} (h : IsBusTable entries) :
    ∃ o, ReadsBus entries o ∧ OverridesBus entries o := by
  obtain ⟨broker, hbroker, setsBroker⟩ := exists_setting_of_typed _ h.broker asText_of_isText
  obtain ⟨topicRoot, hroot, setsRoot⟩ := exists_setting_of_typed _ h.topicRoot asText_of_isText
  obtain ⟨size, hsize, setsSize⟩ := exists_setting_of_typed _ h.maxMessageSize asSize_of_isSize
  exact ⟨⟨broker, topicRoot, size⟩,
    ⟨checkKeys_eq_ok_iff.mpr h.known, hbroker, hroot, hsize⟩, ⟨setsBroker, setsRoot, setsSize⟩⟩

/-- A section that is a table is read as what the table sets, and otherwise the default stands. -/
theorem exists_readsSection {α : Type} {entries : Entries} {key : String} (known : List String)
    (read : Entries → Except SettingsFault α) {isTable : Entries → Prop}
    {overrides : Entries → α → Prop} {default : α} (hdefault : read [] = .ok default)
    (hread : ∀ table, isTable table → ∃ a, read table = .ok a ∧ overrides table a)
    (h : ∀ v, entries.lookup key = some v → ∃ origin table, v = .table origin table ∧ isTable table) :
    ∃ a, ReadsSection entries key known read a ∧
      Sets entries key (fun v a => ∃ origin table, v = .table origin table ∧ overrides table a)
        default a := by
  unfold ReadsSection Sets setting
  cases hlookup : entries.lookup key with
  | none => exact ⟨default, ⟨[], rfl, hdefault⟩, rfl⟩
  | some v =>
    obtain ⟨origin, table, rfl, htable⟩ := h v hlookup
    obtain ⟨a, ha, hoverrides⟩ := hread table htable
    exact ⟨a, ⟨table, rfl, ha⟩, origin, table, rfl, hoverrides⟩

/-- A document of settings is read, and overrides the default settings. -/
theorem IsDocument.exists_reads {entries : Entries} (h : IsDocument entries) :
    ∃ s, Reads entries s ∧ Overrides entries s := by
  obtain ⟨transport, htransport, setsTransport⟩ :=
    exists_setting_of_typed _ h.transport asText_of_isText
  obtain ⟨encoding, hencoding, setsEncoding⟩ := exists_setting_of_typed _ h.encoding asText_of_isText
  obtain ⟨style, hstyle, setsStyle⟩ := exists_setting_of_typed _ h.style asStyle_of_isStyle
  obtain ⟨protocols, hprotocols, setsProtocols⟩ :=
    exists_setting_of_typed _ h.protocols asTexts_of_isTexts
  obtain ⟨versions, hversions, setsVersions⟩ :=
    exists_setting_of_typed _ h.versions asTexts_of_isTexts
  obtain ⟨layouts, hlayouts, setsLayouts⟩ :=
    exists_setting_of_typed _ h.layouts asDirectory_of_isDirectory
  obtain ⟨files, hfiles, setsFiles⟩ :=
    exists_readsSection fileKeys filesOfEntries rfl
      (fun table htable => by simpa only [filesOfEntries_eq_ok_iff] using htable.exists_reads) h.files
  obtain ⟨bus, hbus, setsBus⟩ :=
    exists_readsSection busKeys busOfEntries rfl
      (fun table htable => by simpa only [busOfEntries_eq_ok_iff] using htable.exists_reads) h.bus
  exact ⟨⟨transport, encoding, style, protocols, versions, layouts, files, bus⟩,
    ⟨checkKeys_eq_ok_iff.mpr h.known, htransport, hencoding, hstyle, hprotocols, hversions, hlayouts,
      hfiles, hbus⟩,
    ⟨setsTransport, setsEncoding, setsStyle, setsProtocols, setsVersions, setsLayouts, setsFiles,
      setsBus⟩⟩

/-! ## Other keys -/

/-- What is set by a key that is there is what is read from its value. -/
theorem eq_some_of_setting {α : Type} {entries : Entries} {key : String} {as : Value → Option α}
    {default a : α} {v : Value} (h : setting entries key as default = .ok a)
    (hlookup : entries.lookup key = some v) : as v = some a := by
  unfold setting at h
  rw [hlookup] at h
  dsimp only at h
  cases has : as v with
  | none => simp [has] at h
  | some b =>
    rw [has] at h
    exact congrArg some (Except.ok.inj h)

/-- A section is not read if a table under its key has another key. Several tables are not read anyhow:
the first of them is in the place of a string. -/
theorem not_readsSection {α : Type} {entries table : Entries} {key first : String}
    {rest : List String} {read : Entries → Except SettingsFault α}
    (hknown : ∀ es a, read es = .ok a → ∀ e ∈ es, e.1 ∈ first :: rest)
    (hfirst : ∀ es a v, read es = .ok a → es.lookup first = some v → ∃ s, asText v = some s)
    (htable : HasTable entries key table) {e : String × Value} (he : e ∈ table)
    (hother : e.1 ∉ first :: rest) (a : α) :
    ¬ ReadsSection entries key (first :: rest) read a := by
  rintro ⟨es, hes, hread⟩
  rcases htable with ⟨origin, hlookup⟩ | ⟨items, hlookup, hitem⟩
  · have hsection := eq_some_of_setting hes hlookup
    obtain rfl : table = es := Option.some.inj hsection
    exact hother (hknown table a hread e he)
  · have hsection := eq_some_of_setting hes hlookup
    obtain rfl : (first :: rest).zip (items.map (.table .header)) = es := Option.some.inj hsection
    obtain ⟨item, items, rfl⟩ := List.exists_cons_of_ne_nil (List.ne_nil_of_mem hitem)
    obtain ⟨s, hs⟩ := hfirst _ a (.table .header item) hread (by simp)
    cases hs

/-- A document with another key is not read. -/
theorem HasOtherKey.not_reads {entries : Entries} (h : HasOtherKey entries) (s : Settings) :
    ¬ Reads entries s := by
  intro hreads
  cases h with
  | document he hother => exact hother (checkKeys_eq_ok_iff.mp hreads.known _ he)
  | files htable he hother =>
    refine not_readsSection (fun es o hes => ?_) (fun es o v hes hlookup => ?_) htable he hother
      s.files hreads.files
    · exact checkKeys_eq_ok_iff.mp (filesOfEntries_eq_ok_iff.mp hes).known
    · exact ⟨_, eq_some_of_setting (filesOfEntries_eq_ok_iff.mp hes).pathPrefix hlookup⟩
  | bus htable he hother =>
    refine not_readsSection (fun es o hes => ?_) (fun es o v hes hlookup => ?_) htable he hother
      s.bus hreads.bus
    · exact checkKeys_eq_ok_iff.mp (busOfEntries_eq_ok_iff.mp hes).known
    · exact ⟨_, eq_some_of_setting (busOfEntries_eq_ok_iff.mp hes).broker hlookup⟩

end Settings

/-! ## Files -/

/-- The text of the file under a path is a document with this tree. -/
def Tree.HasDocument (t : Tree) (path : String) (entries : Toml.Entries) : Prop :=
  ∃ text, t.readText path = .ok text ∧ Toml.read text = some entries

/-- What is loaded from a file with a document is what is read from its tree. -/
theorem run_loadSettings_of_hasDocument {t : Tree} {path : String} {entries : Toml.Entries}
    (h : t.HasDocument path entries) :
    (loadSettings Tree.storage (some path)).run t =
      ((Settings.ofEntries entries).mapError (.badSettings path), t) := by
  obtain ⟨text, htext, hentries⟩ := h
  rw [run_loadSettings_of_readText htext, Settings.ofDocument, hentries]

/-- **Documents** override the default settings, whatever they name and leave out.

The tree of a document is read if all its keys name settings and all its values are of the types that
these require; the settings are the default ones but for what it names. A tree with any other key, in
the document or in one of its tables, is refused, whatever else it holds. A session that is given a file
with such a document loads these settings, or is broken off for the fault. -/
theorem Settings.documents_override (entries : Toml.Entries) :
    (IsDocument entries → ∃ s, ofEntries entries = .ok s ∧ Overrides entries s ∧
      ∀ t path, Tree.HasDocument t path entries →
        (loadSettings Tree.storage (some path)).run t = (.ok s, t)) ∧
    (HasOtherKey entries → ∃ fault, ofEntries entries = .error fault ∧
      ∀ t path, Tree.HasDocument t path entries →
        (loadSettings Tree.storage (some path)).run t = (.error (.badSettings path fault), t)) := by
  constructor
  · intro h
    obtain ⟨s, hreads, hoverrides⟩ := h.exists_reads
    have hs := ofEntries_eq_ok_iff.mpr hreads
    refine ⟨s, hs, hoverrides, fun t path hfile => ?_⟩
    rw [run_loadSettings_of_hasDocument hfile, hs]
    rfl
  · intro h
    cases hread : ofEntries entries with
    | ok s => exact absurd (ofEntries_eq_ok_iff.mp hread) (h.not_reads s)
    | error fault =>
      refine ⟨fault, rfl, fun t path hfile => ?_⟩
      rw [run_loadSettings_of_hasDocument hfile, hread]
      rfl

/-- A tree with one file, which names only the fetch limit. -/
def Tree.limitOnly : Tree :=
  empty.insert ["settings.toml"] (.file (.text "[bus]\nmax_message_size = 5\n"))

/-- The settings in it are the default ones but for the fetch limit; with a hyphen in its name there
are none. -/
theorem Settings.documents_override_limitOnly :
    IsDocument [("bus", .table .header [("max_message_size", .integer 5)])] ∧
      Tree.limitOnly.HasDocument "settings.toml"
        [("bus", .table .header [("max_message_size", .integer 5)])] ∧
      (loadSettings Tree.storage (some "settings.toml")).run Tree.limitOnly =
        (.ok { default with bus := { default.bus with maxMessageSize := 5 } }, Tree.limitOnly) ∧
      HasOtherKey [("bus", .table .header [("max-message-size", .integer 5)])] ∧
      ∃ fault, ofEntries [("bus", .table .header [("max-message-size", .integer 5)])] =
        .error fault := by
  have hdocument : IsDocument [("bus", .table .header [("max_message_size", .integer 5)])] := by
    constructor
    case known => decide
    case bus =>
      intro v hv
      obtain rfl : Toml.Value.table .header [("max_message_size", .integer 5)] = v := by simpa using hv
      refine ⟨.header, _, rfl, ?_⟩
      constructor
      case known => decide
      case maxMessageSize =>
        intro v hv
        obtain rfl : Toml.Value.integer 5 = v := by simpa using hv
        exact ⟨5, rfl⟩
      all_goals
        intro v hv
        cases hv
    all_goals
      intro v hv
      cases hv
  have hread : Toml.read "[bus]\nmax_message_size = 5\n" =
      some [("bus", .table .header [("max_message_size", .integer 5)])] := by
    -- unpacked first, or each reader would unpack the text again
    have hchars : "[bus]\nmax_message_size = 5\n".toList =
        ['[', 'b', 'u', 's', ']', '\n', 'm', 'a', 'x', '_', 'm', 'e', 's', 's', 'a', 'g', 'e', '_', 's',
          'i', 'z', 'e', ' ', '=', ' ', '5', '\n'] := by decide
    rw [Toml.read, hchars]
    rfl
  have hfile : Tree.limitOnly.HasDocument "settings.toml"
      [("bus", .table .header [("max_message_size", .integer 5)])] :=
    ⟨"[bus]\nmax_message_size = 5\n", by decide, hread⟩
  have hother : HasOtherKey [("bus", .table .header [("max-message-size", .integer 5)])] :=
    .bus (.inl ⟨.header, rfl⟩) List.mem_cons_self (by decide)
  obtain ⟨s, hs, -, hload⟩ := (documents_override _).1 hdocument
  obtain ⟨fault, hfault, -⟩ := (documents_override _).2 hother
  have hsettings : ofEntries [("bus", .table .header [("max_message_size", .integer 5)])] =
      .ok { default with bus := { default.bus with maxMessageSize := 5 } } := rfl
  obtain rfl := Except.ok.inj (hsettings.symm.trans hs)
  exact ⟨hdocument, hfile, hload _ _ hfile, hother, fault, hfault⟩

end CaptureIngest
