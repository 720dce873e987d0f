import CaptureIngest.CommandLine.Arguments
import CaptureIngest.Generation
import CaptureIngest.LayoutDirectory
import CaptureIngest.Listing

/-!
# Sessions

A session is one run of the program: from a command line and the files around it to an exit code,
the texts on standard output and standard error, and the files that were written. It is the same
definition for any `Storage`.

Nothing is written before all input has been read and all definitions are there; a pair without a
layout is skipped, and the session then fails at its end. Each part of a session notes what happens, and
what is shown of that stands on standard error, in front of all that the session says itself.

The texts for a command line that asks for help, or is none that the program has, are stand-ins: these
are the words of the library that reads command lines.
-/

namespace CaptureIngest

open CommandLine

/-- How a session ends. -/
structure Outcome where
  /-- The exit code: 0 for success, 1 for failure, 2 for a bad command line. -/
  code : UInt32
  /-- The text on standard output. -/
  stdout : String
  /-- The text on standard error, the log in front. -/
  stderr : String
  deriving DecidableEq, Repr

/-- An outcome with a text in front of what it has on standard error. -/
def Outcome.behind (outcome : Outcome) (front : String) : Outcome :=
  { outcome with stderr := front ++ outcome.stderr }

/-- Behind no text an outcome stays as it is. -/
@[simp]
theorem Outcome.behind_empty (outcome : Outcome) : outcome.behind "" = outcome := by
  rw [behind, String.empty_append]

/-- Why a session was broken off. -/
inductive Abort
  /-- The settings file cannot be read. -/
  | unreadableSettings (path : String) (fault : Fault)
  /-- The settings file holds no settings. -/
  | badSettings (path : String) (fault : SettingsFault)
  /-- A setting names nothing. -/
  | badName (failure : Failure)
  /-- A layout file cannot be read. -/
  | unreadableLayout (directory path : String) (fault : Fault)
  /-- A schema or a definition cannot be had. -/
  | refused (failure : Failure)
  /-- The program cannot be written. -/
  | unwritable (fault : Fault)
  /-- So many of so many definitions were skipped. -/
  | incomplete (skipped requested : Nat)
  deriving DecidableEq, Repr

namespace Abort

/-- The wording for a settings file that cannot be read. -/
def settingsMessage (path : String) (fault : Fault) : String :=
  "Failed to read config file " ++ path ++ ": " ++ fault.message

/-- The wording for a layout file that cannot be read. -/
def layoutMessage (path : String) (fault : Fault) : String :=
  "Failed to read layout file " ++ path ++ ": " ++ fault.message

/-- The wording for a program that cannot be written. -/
def outputMessage (fault : Fault) : String :=
  "I/O error: " ++ fault.message

/-- The causes of a failure. -/
def causesOf (failure : Failure) : List String :=
  failure.cause?.toList.map (·.message)

/-- What went wrong, and its causes from the nearest to the farthest. -/
def chain : Abort → String × List String
  | unreadableSettings path fault =>
    ("Failed to load config: " ++ path, [settingsMessage path fault, fault.message])
  | badSettings path fault =>
    ("Failed to load config: " ++ path,
      ["Failed to parse config file " ++ path ++ ": " ++ fault.message, fault.message])
  | badName failure => ("Invalid configuration", failure.message :: causesOf failure)
  | unreadableLayout directory path fault =>
    ("Failed to load layouts from " ++ directory, [layoutMessage path fault, fault.message])
  | refused failure => (failure.message, causesOf failure)
  | unwritable fault => ("Failed to write output", [outputMessage fault, fault.message])
  | incomplete skipped requested =>
    (Nat.repr skipped ++ " of " ++ Nat.repr requested ++ " definitions skipped", [])

/-- A text whose lines but the first are indented. -/
def indent (margin : String) (s : String) : String :=
  String.ofList (s.toList.flatMap fun c => if c = '\n' then '\n' :: margin.toList else [c])

/-- Causes with their numbers, from a number on. -/
def numbered (n : Nat) : List String → String
  | [] => ""
  | cause :: rest =>
    "\n" ++ Text.padLeft 5 (Nat.repr n) ++ ": " ++ indent "       " cause ++ numbered (n + 1) rest

/-- The report of a session that was broken off. -/
def report (a : Abort) : String :=
  "Error: " ++ a.chain.1 ++
    (match a.chain.2 with
      | [] => ""
      | [cause] => "\n\nCaused by:\n    " ++ indent "    " cause
      | causes => "\n\nCaused by:" ++ numbered 0 causes)
    ++ "\n"

/-- The end of a session that was broken off when this much was on standard output. -/
def outcome (a : Abort) (stdout : String) : Outcome :=
  ⟨1, stdout, a.report⟩

end Abort

/-! ## Command lines that ask for no session -/

/-- The name and the version of the program. -/
def versionText : String := "sniffdef 0.3.0\n"

/-- What the program is for and how it is called: a stand-in that names the options and leaves out what
they are for. -/
def helpText : String :=
  Text.endLines <|
    ["Generate Ramen ingestion definitions for sniffer captures", "",
      "Usage: sniffdef [OPTIONS] [PROTOCOL]...", "", "Options:"]
    ++ Flag.all.map fun f =>
        "  " ++ f.short?.elim "    " (fun c => "-" ++ c.toString ++ ", ") ++ "--" ++ f.long

/-- What is said about a bad command line: a stand-in that tells the kinds of problems apart and leaves
out the argument. -/
def problemText : Problem → String
  | .unknownOption => "error: unexpected argument found\n"
  | .unwantedValue => "error: unexpected value for an option\n"
  | .badValue => "error: an option lacks its value or has one that it does not allow\n"
  | .notANumber => "error: the value of an option is no number\n"
  | .conflict => "error: an option cannot be used with another or be given twice\n"
  | .help | .version => ""

/-- The end of a session that does not begin. -/
def outcomeOfProblem : Problem → Outcome
  | .help => ⟨0, helpText, ""⟩
  | .version => ⟨0, versionText, ""⟩
  | p => ⟨2, "", problemText p⟩

/-! ## The parts of a session -/

/-- The tables of a protocol's schemas in some versions, up to the first that there is not. -/
def showSchemas (r : Registry) (p : Protocol) (encoding : Encoding) :
    List Version → String × Option Failure
  | [] => ("", none)
  | v :: rest =>
    match r.find ⟨p, v, encoding⟩ with
    | .error failure => ("", some failure)
    | .ok schema =>
      match showSchemas r p encoding rest with
      | (text, failure) => (Listing.schema schema ++ text, failure)

/-- The end of a session that shows the schemas of a protocol. -/
def schemaOutcome (r : Registry) (plan : Plan) (name : String) : Outcome :=
  match Protocol.ofText name with
  | .error failure => (Abort.refused failure).outcome ""
  | .ok p =>
    match showSchemas r p plan.encoding plan.versions with
    | (text, none) => ⟨0, text, ""⟩
    | (text, some failure) => (Abort.refused failure).outcome text

/-- The line about a pair that was skipped. -/
def skippedLine (s : Skipped) : String :=
  "skipped " ++ s.key.render ++ ": " ++ s.reason.message

/-- The end of a session whose program was written. -/
def generatedOutcome (g : Generation) (stdout : String) : Outcome :=
  let lines := Text.endLines (g.skipped.map skippedLine)
  if g.isComplete then ⟨0, stdout, lines⟩
  else ⟨1, stdout, lines ++ (Abort.incomplete g.skipped.length g.requested).report⟩

section

variable {m : Type → Type} [Monad m] (storage : Storage m)

/-- The settings of a file, or the default ones. -/
def loadSettings : Option String → m (Except Abort Settings)
  | none => pure (.ok Settings.default)
  | some path => do
    match ← storage.readText path with
    | .error fault => pure (.error (.unreadableSettings path fault))
    | .ok text =>
      match Settings.ofDocument text with
      | .error fault => pure (.error (.badSettings path fault))
      | .ok settings => pure (.ok settings)

/-- The built-in layouts with those of a plan's directory over them, and what is noted on the way. -/
def loadRegistry (plan : Plan) : m (List Event × Except Abort Registry) :=
  match plan.layouts with
  | none => pure (Registry.builtinEvents, .ok .builtin)
  | some directory => do
    let files ← LayoutFile.readAll storage directory plan.encoding plan.protocols
    let log := Registry.builtinEvents ++ LayoutFile.events directory (LayoutFile.ofProtocol files)
      plan.versions plan.encoding plan.protocols
    match Registry.builtin.loadFiles directory plan.versions plan.encoding plan.protocols files with
    | (.ok n, registry) => pure (log ++ [.directoryLoaded directory n], .ok registry)
    | (.error (path, fault), _) => pure (log, .error (.unreadableLayout directory path fault))

/-- Generates what a plan asks for and writes it; with what is noted on the way. -/
def generateInto (target : Output) (plan : Plan) (registry : Registry) : m (List Event × Outcome) :=
  let log := (Plan.missing registry plan.keys).map Skipped.event
  match plan.generate registry with
  | .error failure => pure (log, (Abort.refused failure).outcome "")
  | .ok generation => do
    let log := log ++ [plan.event generation]
    match ← target.write storage plan.style generation.definitions with
    | .error fault => pure (log, (Abort.unwritable fault).outcome "")
    | .ok stdout =>
      pure (log ++ target.events generation.definitions.length, generatedOutcome generation stdout)

/-- A session with a plan, and what it notes. -/
def follow (arguments : Arguments) (plan : Plan) : m (List Event × Outcome) := do
  match ← loadRegistry storage plan with
  | (log, .error a) => pure (log, a.outcome "")
  | (log, .ok registry) =>
    match arguments.schema with
    | some name => pure (log, schemaOutcome registry plan name)
    | none => do
      let (rest, outcome) ← generateInto storage arguments.target plan registry
      pure (log ++ rest, outcome)

/-- A session with arguments, and what it notes. -/
def perform (arguments : Arguments) : m (List Event × Outcome) := do
  if arguments.listProtocols then pure ([], ⟨0, Listing.protocols, ""⟩)
  else
    match ← loadSettings storage arguments.config with
    | .error a => pure ([], a.outcome "")
    | .ok settings =>
      let log := arguments.config.toList.map .settingsLoaded
      match (arguments.apply settings).resolve with
      | .error failure => pure (log, (Abort.badName failure).outcome "")
      | .ok plan => do
        let (rest, outcome) ← follow storage arguments plan
        pure (log ++ rest, outcome)

/-- A session, from its command line on. Its log shows nothing unless it is told how it is written. -/
def session (environment : Option String) (commandLine : List String) (logging : Logging := .off) :
    m Outcome :=
  match Arguments.parse environment commandLine with
  | .error p => pure (outcomeOfProblem p)
  | .ok arguments => do
    let (log, outcome) ← perform storage arguments
    return outcome.behind (logging.text arguments.verbose log)

end

end CaptureIngest
