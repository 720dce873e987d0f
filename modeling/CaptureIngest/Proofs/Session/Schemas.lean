import CaptureIngest.Proofs.Session.AllOrNothing

/-!
# What a session lists

A session that is asked for the schemas of a protocol lists one for each version of its plan, up to the
first version that has none. A generation for this protocol alone looks the same keys up, but the two
do not load the same layouts: a session loads those of the protocols of its plan, and the protocol that
it is asked for need not be one of them.

* `Outcome.Lists`: a session lists the definitions of some versions, up to the first that has none.
* `Plan.Emits`, `Plan.Skips`: what a generation for one version alone comes to.
* `Plan.Overlooks`: there is a layout file for a protocol, and the plan does not call for it.
* **Listings** (`Loads.lists`): what is listed from the layouts of one plan is what is generated for
  another one, if the two load the same file for each key that is listed.
* **Schemas** (`session_lists_schemas`): a session lists what is generated for the protocol alone,
  unless it overlooks the layout file; then it lists what is generated without a layout directory.
-/

namespace CaptureIngest

open CommandLine

/-- How a session ends that lists the definitions of some versions: each of them with its fields in
order, up to the first version that is skipped, and then the session fails for that reason. -/
inductive Outcome.Lists (emits : Version → Definition → Prop) (skips : Version → Failure → Prop) :
    List Version → Outcome → Prop
  /-- Nothing is left to list. -/
  | done : Lists emits skips [] ⟨0, "", ""⟩
  /-- The next version is skipped. -/
  | skipped {v : Version} {rest : List Version} {reason : Failure} : skips v reason →
    Lists emits skips (v :: rest) ((Abort.refused reason).outcome "")
  /-- The next version has a definition, and the table of its fields comes first. -/
  | listed {v : Version} {rest : List Version} {d : Definition} {outcome : Outcome} : emits v d →
    Lists emits skips rest outcome →
    Lists emits skips (v :: rest)
      { outcome with stdout := Listing.schema d.schema ++ outcome.stdout }

namespace Plan

/-- The plan with one protocol in the place of its protocols. -/
def only (plan : Plan) (p : Protocol) : Plan :=
  { plan with protocols := [p] }

/-- The plan with one version in the place of its versions. -/
def atVersion (plan : Plan) (v : Version) : Plan :=
  { plan with versions := [v] }

/-- The plan without a directory of layouts. -/
def withoutLayouts (plan : Plan) : Plan :=
  { plan with layouts := none }

/-- What is generated for a plan with the layouts that a session loads for it. -/
def Generates (plan : Plan) (t : Tree) (g : Generation) : Prop :=
  ∃ registry, Loads t plan registry ∧ plan.generate registry = .ok g

/-- A definition is what is generated for one version of a plan. -/
def Emits (plan : Plan) (t : Tree) (v : Version) (d : Definition) : Prop :=
  (plan.atVersion v).Generates t ⟨[d], []⟩

/-- For one version of a plan nothing is generated, and this is the reason. -/
def Skips (plan : Plan) (t : Tree) (v : Version) (reason : Failure) : Prop :=
  ∃ key, (plan.atVersion v).Generates t ⟨[], [⟨key, reason⟩]⟩

/-- A layout file is there for a protocol, and the plan does not call for it. -/
structure Overlooks (plan : Plan) (t : Tree) (p : Protocol) : Prop where
  /-- The protocol is none of the plan's. -/
  not_mem : p ∉ plan.protocols
  /-- It has a layout file. -/
  file : plan.layoutFile t p ≠ .absent

end Plan

section

variable {t : Tree} {plan other : Plan} {registry : Registry} {p : Protocol}

/-- Plans that load the same file for a key find the same there. -/
theorem Loads.find_congr (h : Loads t plan registry) {registry' : Registry}
    (h' : Loads t other registry') {key : Key}
    (hfile : plan.loadedFile t key = other.loadedFile t key) :
    registry.find key = registry'.find key := by
  apply Registry.find_congr
  rw [h.slot, h'.slot, hfile]

/-! ## Generations -/

/-- What is generated for a plan is a matter of the tree. -/
theorem Plan.Generates.unique {g g' : Generation} (hg : plan.Generates t g)
    (hg' : plan.Generates t g') : g = g' := by
  obtain ⟨registry, hloads, hgenerate⟩ := hg
  obtain ⟨registry', hloads', hgenerate'⟩ := hg'
  rw [hloads.unique hloads', hgenerate'] at hgenerate
  exact (Except.ok.inj hgenerate).symm

/-! ## Listings -/

/-- How a session ends that has shown some tables, and may have found one missing. -/
def Outcome.ofTables : String × Option Failure → Outcome
  | (text, none) => ⟨0, text, ""⟩
  | (text, some failure) => (Abort.refused failure).outcome text

/-- Under the name of a protocol its layouts are listed. -/
theorem schemaOutcome_eq {name : String} (h : Protocol.ofText name = .ok p) :
    schemaOutcome registry plan name =
      .ofTables (showSchemas registry p plan.encoding plan.versions) := by
  simp only [schemaOutcome, h]
  rcases showSchemas registry p plan.encoding plan.versions with ⟨text, _ | failure⟩ <;> rfl

/-- Tables are a listing of whatever tells of each version what is found for it. -/
theorem lists_showSchemas {e : Encoding} {versions : List Version}
    {emits : Version → Definition → Prop} {skips : Version → Failure → Prop}
    (hfound : ∀ v ∈ versions, ∀ schema, registry.find ⟨p, v, e⟩ = .ok schema →
      ∃ d, emits v d ∧ d.schema = schema)
    (hmissing : ∀ v ∈ versions, ∀ reason, registry.find ⟨p, v, e⟩ = .error reason → skips v reason) :
    (Outcome.ofTables (showSchemas registry p e versions)).Lists emits skips versions := by
  induction versions with
  | nil => exact .done
  | cons v versions ih =>
    rw [showSchemas]
    cases hfind : registry.find ⟨p, v, e⟩ with
    | error reason => exact .skipped (hmissing v List.mem_cons_self reason hfind)
    | ok schema =>
      obtain ⟨d, hd, rfl⟩ := hfound v List.mem_cons_self schema hfind
      have hrest := ih (fun w hw => hfound w (List.mem_cons_of_mem v hw))
        fun w hw => hmissing w (List.mem_cons_of_mem v hw)
      have hlisted := Outcome.Lists.listed hd hrest
      rcases hshow : showSchemas registry p e versions with ⟨text, _ | failure⟩ <;>
        rw [hshow] at hlisted <;> exact hlisted

/-- A key of the only protocol is given the file of the protocol. -/
theorem Plan.loadedFile_of_only (plan : Plan) (hprotocols : plan.protocols = [p]) {v : Version}
    (hv : v ∈ plan.versions) :
    plan.loadedFile t ⟨p, v, plan.encoding⟩ = plan.layoutFile t p := by
  have hp : p ∈ plan.protocols := by simp [hprotocols]
  exact if_pos ⟨hp, hv, rfl⟩

/-- What is found for a version is found as well for the version alone, where the same file is loaded. -/
theorem Loads.exists_find_eq (h : Loads t plan registry) (hprotocols : other.protocols = [p])
    (hencoding : other.encoding = plan.encoding)
    (hreadable : ∀ p, (other.layoutFile t p).isUnreadable = false) {v : Version}
    (hfile : plan.loadedFile t ⟨p, v, plan.encoding⟩ = other.layoutFile t p) :
    ∃ registry', Loads t (other.atVersion v) registry' ∧
      registry.find ⟨p, v, plan.encoding⟩ = registry'.find ⟨p, v, plan.encoding⟩ := by
  have hgood : ¬ (other.atVersion v).HasBadFile t := Plan.not_hasBadFile hreadable
  obtain ⟨registry', h'⟩ := exists_loads hgood
  have hfile' : (other.atVersion v).loadedFile t ⟨p, v, plan.encoding⟩ = other.layoutFile t p := by
    rw [← hencoding]
    exact (other.atVersion v).loadedFile_of_only hprotocols (List.mem_singleton_self v)
  exact ⟨registry', h', h.find_congr h' (hfile.trans hfile'.symm)⟩

/-- **Listings**: what is listed from the layouts of a plan is what is generated for another plan of one
protocol, version by version, if the file of the protocol is loaded for each of its keys. -/
theorem Loads.lists (h : Loads t plan registry) (hprotocols : other.protocols = [p])
    (hencoding : other.encoding = plan.encoding)
    (hreadable : ∀ p, (other.layoutFile t p).isUnreadable = false)
    (hfile : ∀ v ∈ plan.versions,
      plan.loadedFile t ⟨p, v, plan.encoding⟩ = other.layoutFile t p) :
    (Outcome.ofTables (showSchemas registry p plan.encoding plan.versions)).Lists (other.Emits t)
      (other.Skips t) plan.versions := by
  have hkeys : ∀ v, (other.atVersion v).keys = [⟨p, v, plan.encoding⟩] := by
    intro v
    rw [← hencoding]
    simp [Plan.keys, Plan.atVersion, hprotocols]
  apply lists_showSchemas
  · intro v hv schema hfind
    obtain ⟨registry', h', heq⟩ :=
      h.exists_find_eq hprotocols hencoding hreadable (hfile v hv)
    rw [heq] at hfind
    exact ⟨_, ⟨registry', h', Plan.generate_of_find_ok (hkeys v) hfind⟩, rfl⟩
  · intro v hv reason hfind
    obtain ⟨registry', h', heq⟩ :=
      h.exists_find_eq hprotocols hencoding hreadable (hfile v hv)
    rw [heq] at hfind
    exact ⟨_, registry', h', Plan.generate_of_find_error (hkeys v) hfind⟩

/-- The same for all versions at once: where a generation for the one protocol succeeds, its definitions
are listed, and what it skips ends the listing. -/
theorem Loads.lists_of_generates (h : Loads t plan registry) {g : Generation}
    (hg : (plan.only p).Generates t g)
    (hfile : ∀ v ∈ plan.versions,
      plan.loadedFile t ⟨p, v, plan.encoding⟩ = plan.layoutFile t p) :
    (Outcome.ofTables (showSchemas registry p plan.encoding plan.versions)).Lists
      (fun v d => d ∈ g.definitions ∧ d.key = ⟨p, v, plan.encoding⟩)
      (fun v reason => ⟨⟨p, v, plan.encoding⟩, reason⟩ ∈ g.skipped) plan.versions := by
  obtain ⟨registry', h', hgenerate⟩ := hg
  have hkey : ∀ v ∈ plan.versions, ⟨p, v, plan.encoding⟩ ∈ (plan.only p).keys :=
    fun v hv => List.mem_flatMap.mpr ⟨v, hv, List.mem_singleton_self _⟩
  have heq : ∀ v ∈ plan.versions, registry.find ⟨p, v, plan.encoding⟩ =
      registry'.find ⟨p, v, plan.encoding⟩ := by
    intro v hv
    have hfile' : (plan.only p).loadedFile t ⟨p, v, plan.encoding⟩ = plan.layoutFile t p :=
      (plan.only p).loadedFile_of_only rfl hv
    exact h.find_congr h' ((hfile v hv).trans hfile'.symm)
  apply lists_showSchemas
  · intro v hv schema hfind
    have hschema : schema.key = ⟨p, v, plan.encoding⟩ := h.registry.1.key_of_find hfind
    rw [heq v hv] at hfind
    obtain ⟨d, hd, rfl⟩ := Plan.exists_mem_definitions hgenerate (hkey v hv) hfind
    exact ⟨d, ⟨hd, hschema⟩, rfl⟩
  · intro v hv reason hfind
    rw [heq v hv] at hfind
    exact Plan.mem_skipped hgenerate (hkey v hv) hfind

/-- A session that is asked for schemas shows what it finds in its layouts. -/
theorem exists_run_follow_of_schema {arguments : Arguments} {name : String}
    (hschema : arguments.schema = some name) (h : Loads t plan registry) :
    ∃ log, (follow Tree.storage arguments plan).run t =
      ((log, schemaOutcome registry plan name), t) := by
  obtain ⟨log, hrun, -⟩ := h.exists_run_loadRegistry
  refine ⟨log, ?_⟩
  rw [follow, run_bind_of_run hrun, hschema]
  rfl

/-- So does the whole session, behind what is shown of its log. -/
theorem exists_run_session_of_schema {environment : Option String} {commandLine : List String}
    {arguments : Arguments} (hparse : Arguments.parse environment commandLine = .ok arguments)
    (hlist : arguments.listProtocols = false) {name : String}
    (hschema : arguments.schema = some name) (hplans : Plans t arguments plan)
    (h : Loads t plan registry) :
    ∃ log, ∀ logging, (session Tree.storage environment commandLine logging).run t =
      ((schemaOutcome registry plan name).behind (logging.text arguments.verbose log), t) := by
  obtain ⟨log, hfollow⟩ := exists_run_follow_of_schema hschema h
  exact ⟨_, run_session hparse (run_perform_of_plans hlist hplans hfollow)⟩

/-- Settings in which one protocol takes the place of the others make the plan for this protocol. -/
theorem Settings.resolve_only {settings : Settings} (h : settings.resolve = .ok plan) (p : Protocol) :
    { settings with protocols := [p.name] }.resolve = .ok (plan.only p) := by
  have hmakes := resolve_eq_ok_iff.mp h
  have hprotocols : requestedProtocols [p.name] = .ok [p] := by
    apply (requestedProtocols_eq_ok_iff (List.cons_ne_nil _ _)).mpr
    exact .cons p.ofText_name .nil
  exact resolve_eq_ok_iff.mpr ⟨hmakes.transport, hmakes.encoding, hprotocols, hmakes.versions,
    hmakes.style, hmakes.layouts, hmakes.files, hmakes.bus⟩

end

/-! ## Schemas -/

/-- **Schemas**: what a session does that is asked for the schemas of a protocol, whatever the command
line, the environment and the tree are, and however its log is written, if there are settings that make a
plan and every layout file can be read.

The settings make a plan for the protocol alone as well. If the plan of the session does not overlook the
layout file of the protocol, the session lists for each version the definition that is generated for the
protocol and the version, in order, and fails with the reason of the first version that is skipped. It
does so by a generation of all versions at once, too, where this succeeds: two versions that have a
layout make two definitions of one name, which no generation has.

If the plan overlooks the layout file, then the session lists what is generated for the protocol where
there is no layout directory. The tree stays as it is, and what is shown of the log stands in front of what
the session says. -/
theorem session_lists_schemas {environment : Option String} {commandLine : List String}
    {arguments : Arguments} (hparse : Arguments.parse environment commandLine = .ok arguments)
    (hlist : arguments.listProtocols = false) {name : String}
    (hschema : arguments.schema = some name) {p : Protocol} (hname : Protocol.ofText name = .ok p)
    {t : Tree} {settings : Settings} (hsettings : t.settings? arguments.config = some settings)
    {plan : Plan} (hplan : (arguments.apply settings).resolve = .ok plan)
    (hreadable : ∀ q, (plan.layoutFile t q).isUnreadable = false) :
    { arguments.apply settings with protocols := [p.name] }.resolve = .ok (plan.only p) ∧
    ∃ (outcome : Outcome) (log : List Event),
      (∀ logging, (session Tree.storage environment commandLine logging).run t =
        (outcome.behind (logging.text arguments.verbose log), t)) ∧
      (¬ plan.Overlooks t p →
        outcome.Lists ((plan.only p).Emits t) ((plan.only p).Skips t) plan.versions ∧
        ∀ g, (plan.only p).Generates t g →
          outcome.Lists (fun v d => d ∈ g.definitions ∧ d.key = ⟨p, v, plan.encoding⟩)
            (fun v reason => ⟨⟨p, v, plan.encoding⟩, reason⟩ ∈ g.skipped) plan.versions) ∧
      (plan.Overlooks t p →
        outcome.Lists ((plan.only p).withoutLayouts.Emits t) ((plan.only p).withoutLayouts.Skips t)
          plan.versions) := by
  obtain ⟨registry, hloads⟩ := exists_loads (Plan.not_hasBadFile hreadable)
  obtain ⟨log, hrun⟩ :=
    exists_run_session_of_schema hparse hlist hschema ⟨settings, hsettings, hplan⟩ hloads
  refine ⟨Settings.resolve_only hplan p, schemaOutcome registry plan name, log, hrun, ?_, ?_⟩
  · intro hseen
    have hfile : ∀ v ∈ plan.versions,
        plan.loadedFile t ⟨p, v, plan.encoding⟩ = plan.layoutFile t p := by
      intro v hv
      by_cases hp : p ∈ plan.protocols
      · exact if_pos ⟨hp, hv, rfl⟩
      · have habsent : plan.layoutFile t p = .absent := by
          by_contra hfile
          exact hseen ⟨hp, hfile⟩
        rw [habsent]
        exact if_neg fun hloaded => hp hloaded.1
    rw [schemaOutcome_eq hname]
    exact ⟨hloads.lists rfl rfl hreadable hfile, fun g hg => hloads.lists_of_generates hg hfile⟩
  · intro hoverlooks
    have hfile : ∀ v ∈ plan.versions,
        plan.loadedFile t ⟨p, v, plan.encoding⟩ = (plan.only p).withoutLayouts.layoutFile t p :=
      fun v _ => if_neg fun hloaded => hoverlooks.not_mem hloaded.1
    rw [schemaOutcome_eq hname]
    exact hloads.lists rfl rfl (fun _ => rfl) hfile

/-! ## A layout file that is overlooked -/

/-- A command line that names a protocol, and asks for the schema of TCP. -/
def tcpSchemaLine (protocol : String) : List String :=
  [protocol, "--schema", "tcp", "--schema-version", "v31", "--layouts", "."]

/-- What it says. -/
def Arguments.tcpSchema (protocol : String) : Arguments :=
  { protocols := [protocol], schema := some "tcp", versions := ["v31"], layouts := some "." }

/-- The key of the schema. -/
def Key.tcpSchema : Key :=
  ⟨.tcp, .v31, .csv⟩

/-- With a protocol in front, that command line asks for this protocol alone. -/
theorem plans_tcpSchema (q : Protocol) :
    Plans .window (Arguments.tcpSchema q.name) (Plan.window [q]) := by
  have hlimit : BusSettings.default.options.fetchLimit ≠ some 0 := by decide
  exact ⟨.default, rfl, Plan.resolve_settings (p := Plan.window [q]) (List.cons_ne_nil _ _) hlimit⟩

/-- For TCP the definition is generated that the file tells of. -/
theorem exists_emits_window (q : Protocol) :
    ∃ d, ((Plan.window [q]).only .tcp).Emits .window .v31 d ∧
      d.schema = ⟨.tcpSchema, (Program.windowSchema .tcp).layout⟩ := by
  obtain ⟨registry, hloads⟩ := exists_loads (Plan.not_hasBadFile (readable_window [.tcp]))
  exact ⟨_, ⟨registry, hloads,
    Plan.generate_of_find_ok rfl (find_window hloads List.mem_cons_self)⟩, rfl⟩

/-- With TCP in its plan, the session lists what is generated for TCP. -/
theorem session_lists_schemas_window :
    Arguments.parse none (tcpSchemaLine "tcp") = .ok (.tcpSchema "tcp") ∧
      Protocol.ofText "tcp" = .ok .tcp ∧
      (∀ q, ((Plan.window [.tcp]).layoutFile .window q).isUnreadable = false) ∧
      ∃ outcome, (session Tree.storage none (tcpSchemaLine "tcp")).run .window =
          (outcome, .window) ∧
        outcome.Lists (((Plan.window [.tcp]).only .tcp).Emits .window)
          (((Plan.window [.tcp]).only .tcp).Skips .window) [.v31] := by
  have hparse : Arguments.parse none (tcpSchemaLine "tcp") = .ok (.tcpSchema "tcp") := rfl
  have hname : Protocol.ofText "tcp" = .ok .tcp := Protocol.ofText_name .tcp
  obtain ⟨settings, hsettings, hplan⟩ := plans_tcpSchema .tcp
  obtain ⟨-, outcome, log, hrun, hlists, -⟩ := session_lists_schemas hparse rfl rfl hname hsettings
    hplan (readable_window [.tcp])
  have hseen : ¬ (Plan.window [.tcp]).Overlooks .window .tcp :=
    fun hoverlooks => hoverlooks.not_mem List.mem_cons_self
  refine ⟨hparse, hname, readable_window [.tcp], outcome, ?_, (hlists hseen).1⟩
  rw [hrun, Logging.text_off, Outcome.behind_empty]

/-- With UDP in its plan the session finds no schema, while for TCP alone a definition is generated: it
does not list what is generated. -/
theorem session_overlooks_window :
    Arguments.parse none (tcpSchemaLine "udp") = .ok (.tcpSchema "udp") ∧
      Plans .window (.tcpSchema "udp") (Plan.window [.udp]) ∧
      (Plan.window [.udp]).versions = [.v31] ∧
      (∀ q, ((Plan.window [.udp]).layoutFile .window q).isUnreadable = false) ∧
      (session Tree.storage none (tcpSchemaLine "udp")).run .window =
        (⟨1, "", "Error: no schema registered for tcp/v31/csv\n"⟩, .window) ∧
      (∃ d, ((Plan.window [.udp]).only .tcp).Generates .window ⟨[d], []⟩ ∧
        d.key = .tcpSchema) ∧
      ¬ Outcome.Lists (((Plan.window [.udp]).only .tcp).Emits .window)
        (((Plan.window [.udp]).only .tcp).Skips .window) [.v31]
        ⟨1, "", "Error: no schema registered for tcp/v31/csv\n"⟩ := by
  have hparse : Arguments.parse none (tcpSchemaLine "udp") = .ok (.tcpSchema "udp") := rfl
  have hplans : Plans .window (.tcpSchema "udp") (Plan.window [.udp]) := plans_tcpSchema .udp
  have hname : Protocol.ofText "tcp" = .ok .tcp := Protocol.ofText_name .tcp
  have hreadable := readable_window [.udp]
  obtain ⟨d, hemits, hschema⟩ := exists_emits_window .udp
  obtain ⟨registry, hloads⟩ := exists_loads (Plan.not_hasBadFile hreadable)
  refine ⟨hparse, hplans, rfl, hreadable, ?_, ⟨d, hemits, congrArg Schema.key hschema⟩, ?_⟩
  · have hfind := find_window_of_ne (q := .tcp) hloads (.inr (by decide))
    have hshow : showSchemas registry .tcp .csv [.v31] =
        ("", some (.notRegistered .tcpSchema)) := by
      rw [showSchemas, hfind]
      rfl
    obtain ⟨log, hrun⟩ := exists_run_session_of_schema hparse rfl rfl hplans hloads
    rw [hrun, Logging.text_off, Outcome.behind_empty, schemaOutcome_eq hname]
    show (Outcome.ofTables (showSchemas registry .tcp .csv [.v31]), Tree.window) = _
    rw [hshow]
    rfl
  · generalize houtcome : Outcome.mk 1 "" "Error: no schema registered for tcp/v31/csv\n" = outcome
    intro hlists
    cases hlists with
    | skipped hskips =>
      obtain ⟨key, hskipped⟩ := hskips
      cases hemits.unique hskipped
    | listed hlisted hrest =>
      -- a listing that goes through to the end is a success
      cases hrest
      cases houtcome

end CaptureIngest
