import CaptureIngest.Proofs.CommandLine.Reading

/-!
# Command lines over settings

What a command line gives stands in the place of a setting, and all other settings stay. This is a
relation between settings before and after, with one clause for each setting; what the program does is
the only thing that satisfies it.

* `Replaces given old new`: one setting, with what is given for it.
* `Arguments.Layered a s s'`: `s'` is `s` with all that `a` gives in its place.
* **Layering** (`layered_apply`, `layered_iff`): arguments are layered over any settings, in one way
  only.
* **Twice** (`apply_apply`), **in full** (`IsComplete.apply_eq`) and **not at all** (`IsSilent.apply_eq`):
  what follows from that, setting by setting.
* **Any settings** (`exists_commandLine`): settings that name protocols, versions and a directory of
  layouts are what some command line makes of any others.
* **From the command line on** (`commandLine_overrides`): reading and layering together.
-/

namespace CaptureIngest

/-! ## One setting -/

/-- What is given stands in the place of the old value; if nothing is given, the old value stays. -/
structure Replaces {α : Type} (given : Option α) (old new : α) : Prop where
  /-- What is given. -/
  present : ∀ x, given = some x → new = x
  /-- Nothing is given. -/
  absent : given = none → new = old

namespace Replaces

variable {α : Type} {given : Option α} {old new : α}

/-- What is given replaces what there was, and what is not leaves it. -/
theorem getD (given : Option α) (old : α) : Replaces given old (given.getD old) := by
  cases given with
  | none => exact ⟨nofun, fun _ => rfl⟩
  | some x => exact ⟨fun _ hx => Option.some.inj hx, nofun⟩

/-- What is given is the new value. -/
theorem of_some (x old : α) : Replaces (some x) old x :=
  getD (some x) old

/-- There is one new value only. -/
theorem unique {new' : α} (h : Replaces given old new) (h' : Replaces given old new') : new = new' := by
  cases given with
  | none => rw [h.absent rfl, h'.absent rfl]
  | some x => rw [h.present x rfl, h'.present x rfl]

/-- The new value is not replaced by another. -/
theorem again (h : Replaces given old new) : Replaces given new new :=
  ⟨h.present, fun _ => rfl⟩

/-- If something is given, the old value does not matter. -/
theorem of_given (hgiven : given ≠ none) (old' : α) (h : Replaces given old new) :
    Replaces given old' new :=
  ⟨h.present, fun hnone => absurd hnone hgiven⟩

/-- If nothing is given, the old value is the new one. -/
theorem of_not_given (hgiven : given = none) : Replaces given old old :=
  ⟨fun _ hx => absurd (hgiven ▸ hx) nofun, fun _ => rfl⟩

end Replaces

namespace Arguments

/-- A list is given as a whole, and an empty one is not given. -/
def whole : List String → Option (List String)
  | [] => none
  | l => some l

/-- A list that is given is taken as a whole. -/
theorem whole_of_ne_nil {l : List String} (h : l ≠ []) : whole l = some l := by
  cases l with
  | nil => exact absurd rfl h
  | cons => rfl

/-- A list is not given iff it is empty. -/
theorem whole_eq_none {l : List String} : whole l = none ↔ l = [] := by
  cases l <;> simp [whole]

/-- A list that is given replaces the whole of the old one. -/
theorem replaces_whole (l old : List String) :
    Replaces (whole l) old (if l.isEmpty then old else l) := by
  cases l <;> exact Replaces.getD _ _

/-! ## All settings -/

/-- Settings with all that arguments give in its place. -/
structure Layered (a : Arguments) (s s' : Settings) : Prop where
  transport : Replaces a.transport s.transport s'.transport
  encoding : Replaces a.encoding s.encoding s'.encoding
  style : Replaces a.style s.style s'.style
  /-- Protocols are replaced as a whole. -/
  protocols : Replaces (whole a.protocols) s.protocols s'.protocols
  /-- So are versions. -/
  versions : Replaces (whole a.versions) s.versions s'.versions
  /-- A directory of layouts can be given, but not taken away. -/
  layouts : Replaces (a.layouts.map some) s.layouts s'.layouts
  pathPrefix : Replaces a.pathPrefix s.files.pathPrefix s'.files.pathPrefix
  compressed : Replaces a.compressed s.files.compressed s'.files.compressed
  delete : Replaces a.delete s.files.delete s'.files.delete
  broker : Replaces a.broker s.bus.broker s'.bus.broker
  topicRoot : Replaces a.topicRoot s.bus.topicRoot s'.bus.topicRoot
  maxMessageSize : Replaces a.maxMessageSize s.bus.maxMessageSize s'.bus.maxMessageSize

/-- **Layering**: arguments are layered over any settings. -/
theorem layered_apply (a : Arguments) (s : Settings) : a.Layered s (a.apply s) where
  transport := .getD _ _
  encoding := .getD _ _
  style := .getD _ _
  protocols := replaces_whole _ _
  versions := replaces_whole _ _
  layouts := by
    rw [apply]
    cases a.layouts <;> exact Replaces.getD _ _
  pathPrefix := .getD _ _
  compressed := .getD _ _
  delete := .getD _ _
  broker := .getD _ _
  topicRoot := .getD _ _
  maxMessageSize := .getD _ _

/-- There is one way only to layer arguments over settings. -/
theorem Layered.unique {a : Arguments} {s s' s'' : Settings} (h : a.Layered s s')
    (h' : a.Layered s s'') : s' = s'' := by
  have hfiles : s'.files = s''.files :=
    FileOptions.ext (h.pathPrefix.unique h'.pathPrefix) (h.compressed.unique h'.compressed)
      (h.delete.unique h'.delete)
  have hbus : s'.bus = s''.bus :=
    BusSettings.ext (h.broker.unique h'.broker) (h.topicRoot.unique h'.topicRoot)
      (h.maxMessageSize.unique h'.maxMessageSize)
  exact Settings.ext (h.transport.unique h'.transport) (h.encoding.unique h'.encoding)
    (h.style.unique h'.style) (h.protocols.unique h'.protocols) (h.versions.unique h'.versions)
    (h.layouts.unique h'.layouts) hfiles hbus

/-- Layered over settings, arguments are what the program makes of both. -/
theorem layered_iff {a : Arguments} {s s' : Settings} : a.Layered s s' ↔ s' = a.apply s := by
  constructor
  · exact fun h => h.unique (a.layered_apply s)
  · rintro rfl
    exact a.layered_apply s

/-- **Twice** is the same as once. -/
theorem apply_apply (a : Arguments) (s : Settings) : a.apply (a.apply s) = a.apply s := by
  have h := a.layered_apply s
  exact (a.layered_apply (a.apply s)).unique
    ⟨h.transport.again, h.encoding.again, h.style.again, h.protocols.again, h.versions.again,
      h.layouts.again, h.pathPrefix.again, h.compressed.again, h.delete.again, h.broker.again,
      h.topicRoot.again, h.maxMessageSize.again⟩

/-- Whether an option replaces a setting. -/
def replacesSetting : Flag → Bool
  | .config | .output | .outputDir | .listProtocols | .schema | .verbose | .help | .version => false
  | _ => true

/-- Arguments that give all settings. -/
structure IsComplete (a : Arguments) : Prop where
  /-- There are protocols. -/
  protocols : a.protocols ≠ []
  /-- Every option is there that replaces a setting. -/
  options : ∀ f, replacesSetting f = true → a.given f ≠ []

/-- Arguments that give no setting. -/
structure IsSilent (a : Arguments) : Prop where
  /-- There are no protocols. -/
  protocols : a.protocols = []
  /-- No option is there that replaces a setting. -/
  options : ∀ f, replacesSetting f = true → a.given f = []

/-- An option that is given at most once has no values if it is not given. -/
theorem single_eq_nil {α : Type} {write : α → String} {o : Option α} :
    single write o = [] ↔ o = none := by
  cases o <;> simp [single]

/-- No version is given on the command line iff the list of them is empty. -/
theorem given_schemaVersion_eq_nil {a : Arguments} :
    a.given .schemaVersion = [] ↔ whole a.versions = none := by
  simp [given, whole_eq_none]

/-- No directory of layouts is given on the command line iff there is none. -/
theorem given_layouts_eq_nil {a : Arguments} :
    a.given .layouts = [] ↔ a.layouts.map some = none := by
  simp [given, single_eq_nil]

/-- **In full**: if all settings are replaced, it does not matter what they were. -/
theorem IsComplete.apply_eq {a : Arguments} (ha : a.IsComplete) (s s' : Settings) :
    a.apply s = a.apply s' := by
  have hgiven : ∀ {f : Flag} {α : Type} {write : α → String} {o : Option α},
      replacesSetting f = true → a.given f = single write o → o ≠ none := by
    intro f α write o hf hvalues hnone
    exact ha.options f hf (hvalues.trans (single_eq_nil.mpr hnone))
  have hversions : whole a.versions ≠ none :=
    mt given_schemaVersion_eq_nil.mpr (ha.options .schemaVersion rfl)
  have hlayouts : a.layouts.map some ≠ none :=
    mt given_layouts_eq_nil.mpr (ha.options .layouts rfl)
  have h := a.layered_apply s
  have h' : a.Layered s' (a.apply s) :=
    { transport := h.transport.of_given (hgiven (f := .transport) rfl rfl) _
      encoding := h.encoding.of_given (hgiven (f := .encoding) rfl rfl) _
      style := h.style.of_given (hgiven (f := .style) rfl rfl) _
      protocols := h.protocols.of_given (mt whole_eq_none.mp ha.protocols) _
      versions := h.versions.of_given hversions _
      layouts := h.layouts.of_given hlayouts _
      pathPrefix := h.pathPrefix.of_given (hgiven (f := .pathPrefix) rfl rfl) _
      compressed := h.compressed.of_given (hgiven (f := .compressed) rfl rfl) _
      delete := h.delete.of_given (hgiven (f := .delete) rfl rfl) _
      broker := h.broker.of_given (hgiven (f := .broker) rfl rfl) _
      topicRoot := h.topicRoot.of_given (hgiven (f := .topicRoot) rfl rfl) _
      maxMessageSize := h.maxMessageSize.of_given (hgiven (f := .maxMessageSize) rfl rfl) _ }
  exact h'.unique (a.layered_apply s')

/-- **Not at all**: if no setting is replaced, all settings stay. -/
theorem IsSilent.apply_eq {a : Arguments} (ha : a.IsSilent) (s : Settings) : a.apply s = s := by
  have hnone : ∀ {f : Flag} {α : Type} {write : α → String} {o : Option α},
      replacesSetting f = true → a.given f = single write o → o = none := by
    intro f α write o hf hvalues
    exact single_eq_nil.mp (hvalues.symm.trans (ha.options f hf))
  have h : a.Layered s s :=
    { transport := .of_not_given (hnone (f := .transport) rfl rfl)
      encoding := .of_not_given (hnone (f := .encoding) rfl rfl)
      style := .of_not_given (hnone (f := .style) rfl rfl)
      protocols := .of_not_given (whole_eq_none.mpr ha.protocols)
      versions := .of_not_given (given_schemaVersion_eq_nil.mp (ha.options .schemaVersion rfl))
      layouts := .of_not_given (given_layouts_eq_nil.mp (ha.options .layouts rfl))
      pathPrefix := .of_not_given (hnone (f := .pathPrefix) rfl rfl)
      compressed := .of_not_given (hnone (f := .compressed) rfl rfl)
      delete := .of_not_given (hnone (f := .delete) rfl rfl)
      broker := .of_not_given (hnone (f := .broker) rfl rfl)
      topicRoot := .of_not_given (hnone (f := .topicRoot) rfl rfl)
      maxMessageSize := .of_not_given (hnone (f := .maxMessageSize) rfl rfl) }
  exact (a.layered_apply s).unique h

/-! ## Any settings -/

/-- The arguments that give all of some settings. -/
def ofSettings (t : Settings) : Arguments where
  protocols := t.protocols
  transport := some t.transport
  encoding := some t.encoding
  style := some t.style
  versions := t.versions
  layouts := t.layouts
  pathPrefix := some t.files.pathPrefix
  compressed := some t.files.compressed
  delete := some t.files.delete
  broker := some t.bus.broker
  topicRoot := some t.bus.topicRoot
  maxMessageSize := some t.bus.maxMessageSize

/-- Arguments that give all of some settings make them of any others. -/
theorem apply_ofSettings {t : Settings} (hprotocols : t.protocols ≠ []) (hversions : t.versions ≠ [])
    (hlayouts : t.layouts ≠ none) (s : Settings) : (ofSettings t).apply s = t := by
  obtain ⟨directory, hdirectory⟩ := Option.ne_none_iff_exists'.mp hlayouts
  have h : (ofSettings t).Layered s t :=
    { transport := .of_some _ _
      encoding := .of_some _ _
      style := .of_some _ _
      protocols := by
        rw [ofSettings, whole_of_ne_nil hprotocols]
        exact .of_some _ _
      versions := by
        rw [ofSettings, whole_of_ne_nil hversions]
        exact .of_some _ _
      layouts := by
        rw [ofSettings, hdirectory]
        exact .of_some _ _
      pathPrefix := .of_some _ _
      compressed := .of_some _ _
      delete := .of_some _ _
      broker := .of_some _ _
      topicRoot := .of_some _ _
      maxMessageSize := .of_some _ _ }
  exact (layered_iff.mp h).symm

/-- **Any settings**: settings that name protocols, versions and a directory of layouts are what some
command line makes of any others. -/
theorem exists_commandLine {t : Settings} (hprotocols : t.protocols ≠ []) (hversions : t.versions ≠ [])
    (hlayouts : t.layouts ≠ none) (hdirectory : t.layouts ≠ some "") :
    ∃ commandLine a, parse none commandLine = .ok a ∧ ∀ s, a.apply s = t := by
  have hspellable : (ofSettings t).IsSpellable :=
    ⟨nofun, hdirectory, nofun, nofun, .inl rfl, Nat.zero_le _⟩
  exact ⟨_, ofSettings t, parse_of_spells hspellable (spells_words _),
    apply_ofSettings hprotocols hversions hlayouts⟩

/-! ## From the command line on -/

/-- **From the command line on**: whatever the arguments, and in whatever order their options are
written, they are what is read from the command line. Layered over any settings they replace those that
they give, once and for all, and leave all others as they were. -/
theorem commandLine_overrides {a : Arguments} (ha : a.IsSpellable)
    {words : List (Flag × Option String)} (h : Spells words a) :
    parse none (words.map (fun w => w.1.spelling w.2) ++ "--" :: a.protocols) = .ok a ∧
      (∀ s s', a.Layered s s' ↔ s' = a.apply s) ∧
      (∀ s, a.apply (a.apply s) = a.apply s) ∧
      (a.IsComplete → ∀ s s', a.apply s = a.apply s') ∧
      (a.IsSilent → ∀ s, a.apply s = s) :=
  ⟨parse_of_spells ha h, fun _ _ => layered_iff, a.apply_apply, fun hcomplete => hcomplete.apply_eq,
    fun hsilent => hsilent.apply_eq⟩

/-- Arguments whose texts look like options, hold the sign that parts a name from a value, or are
empty. -/
def misleading : Arguments where
  protocols := ["--transport=bus", "", "-", "tcp"]
  config := some "-c=settings.toml"
  transport := some "--encoding=csv"
  encoding := some ""
  style := some .parameterized
  versions := ["v29", "", "--", "v29"]
  layouts := some "="
  pathPrefix := some "-v"
  compressed := some false
  delete := some true
  broker := some "a=b"
  topicRoot := some "--"
  maxMessageSize := some 18446744073709551615
  outputDir := some "--output=p"
  listProtocols := true
  schema := some "-"
  verbose := 2

/-- They are read from a command line in which repeated options lie apart, and replace all settings. -/
theorem commandLine_overrides_misleading :
    parse none ["--verbose", "--schema-version=v29", "--max-message-size=18446744073709551615",
      "--schema-version=", "--transport=--encoding=csv", "--output-dir=--output=p", "--namespace=--",
      "--schema-version=--", "--encoding=", "--list-protocols", "--style=parameterized",
      "--config=-c=settings.toml", "--delete=true", "--verbose", "--broker=a=b", "--compressed=false",
      "--layouts==", "--schema=-", "--schema-version=v29", "--prefix=-v", "--",
      "--transport=bus", "", "-", "tcp"] = .ok misleading ∧
      misleading.IsComplete ∧ ∀ s s', misleading.apply s = misleading.apply s' := by
  have hspellable : misleading.IsSpellable := by
    constructor <;> decide
  have hspells : Spells [(.verbose, none), (.schemaVersion, some "v29"),
      (.maxMessageSize, some "18446744073709551615"), (.schemaVersion, some ""),
      (.transport, some "--encoding=csv"), (.outputDir, some "--output=p"), (.topicRoot, some "--"),
      (.schemaVersion, some "--"), (.encoding, some ""), (.listProtocols, none),
      (.style, some "parameterized"), (.config, some "-c=settings.toml"), (.delete, some "true"),
      (.verbose, none), (.broker, some "a=b"), (.compressed, some "false"), (.layouts, some "="),
      (.schema, some "-"), (.schemaVersion, some "v29"), (.pathPrefix, some "-v")] misleading := by
    intro f
    cases f <;> decide +kernel
  have hcomplete : misleading.IsComplete := by
    refine ⟨nofun, fun f hf => ?_⟩
    cases f <;> first | exact List.cons_ne_nil _ _ | cases hf
  obtain ⟨hparse, -, -, hindependent, -⟩ := commandLine_overrides hspellable hspells
  exact ⟨hparse, hcomplete, hindependent hcomplete⟩

end Arguments

end CaptureIngest
