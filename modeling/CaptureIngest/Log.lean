import CaptureIngest.Failure
import CaptureIngest.Source.Transport
import CaptureIngest.Text.Lines

/-!
# The log of a session

While a session runs it notes what happens, and what is noted may be shown on standard error, a line
for each event. Which events are shown is up to the environment, if that says anything about it, and to
the command line otherwise. How the line of an event looks, and what it tells of the time, is up to the
tool that writes it. Both are left open: `Logging` holds what the environment has chosen and the lines.
-/

namespace CaptureIngest

/-- How much an event matters. -/
inductive Level
  /-- Something that was asked for cannot be had. -/
  | warning
  /-- What a part of a session came to. -/
  | info
  /-- A step of a part. -/
  | debug
  deriving DecidableEq, Repr

namespace Level

/-- How many times more messages must be asked for until the events of a level are shown. -/
def rank : Level → Nat
  | warning => 0
  | info => 1
  | debug => 2

/-- The name of a level. -/
def name : Level → String
  | warning => "WARN"
  | info => "INFO"
  | debug => "DEBUG"

end Level

/-- What a session notes. -/
inductive Event
  /-- A settings file was read. -/
  | settingsLoaded (path : String)
  /-- A layout of so many fields was registered. -/
  | schemaRegistered (key : Key) (fields : Nat)
  /-- A layout was refused. -/
  | schemaRejected (key : Key) (reason : Defect)
  /-- The built-in layouts were registered, or refused. -/
  | builtinLoaded (schemas rejected : Nat)
  /-- There is no layout file for a protocol. -/
  | layoutMissing (path : String)
  /-- The layout of a file was accepted under a version. -/
  | layoutLoaded (path : String) (version : Version)
  /-- All layout files of a directory were read, and so many layouts accepted. -/
  | directoryLoaded (directory : String) (loaded : Nat)
  /-- There is no layout for a pair that was asked for. -/
  | pairSkipped (key : Key) (reason : Failure)
  /-- The definitions were generated. -/
  | generated (definitions skipped : Nat) (transport : Transport) (encoding : Encoding)
  /-- A file with the program of so many definitions was written. -/
  | programWritten (path : String) (definitions : Nat)
  /-- A directory with the programs of so many definitions was written. -/
  | programsWritten (directory : String) (definitions : Nat)
  deriving DecidableEq, Repr

namespace Event

/-- How much an event matters. -/
def level : Event → Level
  | schemaRejected .. | pairSkipped .. => .warning
  | directoryLoaded .. | generated .. | programWritten .. | programsWritten .. => .info
  | settingsLoaded .. | schemaRegistered .. | builtinLoaded .. | layoutMissing ..
  | layoutLoaded .. => .debug

/-- The wording of an event. -/
def message : Event → String
  | settingsLoaded .. => "loaded config"
  | schemaRegistered .. => "registered schema"
  | schemaRejected .. => "schema rejected"
  | builtinLoaded .. => "loaded built-in schemas"
  | layoutMissing .. => "no layout file, keeping built-in"
  | layoutLoaded .. => "loaded layout"
  | directoryLoaded .. => "layout directory processed"
  | pairSkipped .. => "skipping definition"
  | generated .. => "generation finished"
  | programWritten .. => "wrote program"
  | programsWritten .. => "wrote programs"

/-- What an event tells besides its wording: names with their values. -/
def fields : Event → List (String × String)
  | settingsLoaded path => [("path", path)]
  | schemaRegistered key fields => [("key", key.render), ("fields", Nat.repr fields)]
  | schemaRejected key reason => [("key", key.render), ("reason", reason.message)]
  | builtinLoaded schemas rejected =>
    [("schemas", Nat.repr schemas), ("rejected", Nat.repr rejected)]
  | layoutMissing path => [("path", path)]
  | layoutLoaded path version => [("path", path), ("version", version.text)]
  | directoryLoaded directory loaded => [("dir", directory), ("loaded", Nat.repr loaded)]
  | pairSkipped key reason => [("key", key.render), ("error", reason.message)]
  | generated definitions skipped transport encoding =>
    [("generated", Nat.repr definitions), ("skipped", Nat.repr skipped),
     ("transport", transport.name), ("encoding", encoding.name)]
  | programWritten path definitions => [("path", path), ("definitions", Nat.repr definitions)]
  | programsWritten directory definitions =>
    [("dir", directory), ("definitions", Nat.repr definitions)]

/-- All that is known of an event. -/
def text (e : Event) : String :=
  e.level.name ++ " " ++ e.message ++
    String.join (e.fields.map fun (name, value) => " " ++ name ++ "=" ++ value)

/-- The warnings of a log, in order. -/
def warnings (log : List Event) : List Event :=
  log.filter fun e => e.level = .warning

/-- Two parts of a log give their warnings one behind the other. -/
@[simp]
theorem warnings_append (log rest : List Event) :
    warnings (log ++ rest) = warnings log ++ warnings rest :=
  List.filter_append ..

end Event

/-- How a log is written. -/
structure Logging where
  /-- The events that the environment asks for, if it says anything about that. -/
  choice : Option (Event → Bool)
  /-- The line of an event behind so many other lines. It may tell the time, for one thing. -/
  line : Nat → Event → String

namespace Logging

/-- Whether an event is shown where more messages are asked for so many times. -/
def shows (logging : Logging) (verbose : Nat) (e : Event) : Bool :=
  match logging.choice with
  | some isChosen => isChosen e
  | none => e.level.rank ≤ verbose

/-- What is shown of a log. -/
def text (logging : Logging) (verbose : Nat) (log : List Event) : String :=
  Text.endLines ((log.filter (logging.shows verbose)).mapIdx logging.line)

/-- The log that shows nothing. -/
def off : Logging where
  choice := some fun _ => false
  line _ e := e.text

/-- The log that is as loud as the command line says. -/
def plain : Logging where
  choice := none
  line _ e := e.text

/-- Where no event is shown the log is empty. -/
theorem text_eq_empty {logging : Logging} {verbose : Nat} {log : List Event}
    (h : ∀ e ∈ log, logging.shows verbose e = false) : logging.text verbose log = "" := by
  have hnone : log.filter (logging.shows verbose) = [] := by
    rw [List.filter_eq_nil_iff]
    intro e he hshown
    rw [h e he] at hshown
    cases hshown
  rw [text, hnone]
  rfl

/-- A log that is off shows nothing, however often more of it is asked for. -/
@[simp]
theorem text_off (verbose : Nat) (log : List Event) : off.text verbose log = "" :=
  text_eq_empty fun _ _ => rfl

end Logging

end CaptureIngest
