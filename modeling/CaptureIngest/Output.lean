import CaptureIngest.Log
import CaptureIngest.Program
import CaptureIngest.Storage.Access

/-!
# Outputs

The program of a generation goes to standard output, to one file, or to a directory with one
program for each definition, which is named after the definition. A directory wins over a file.
-/

namespace CaptureIngest

/-- Where a program goes. -/
inductive Output
  /-- The standard output. -/
  | standard
  /-- One file. -/
  | file (path : String)
  /-- A directory, a file for each definition. -/
  | directory (path : String)
  deriving DecidableEq, Repr

namespace Output

/-- The output that an optional file and an optional directory ask for. -/
def choose (file directory : Option String) : Output :=
  match file, directory with
  | _, some path => .directory path
  | some path, none => .file path
  | none, none => .standard

/-- The extension of program files. -/
def programExtension : String := ".ramen"

/-- The path of a definition's own program. -/
def definitionPath (directory : String) (d : Definition) : String :=
  Storage.join directory (d.name ++ programExtension)

/-- The files of a directory with one program for each definition. -/
def directoryFiles (directory : String) (style : Style) (definitions : List Definition) :
    List (String × String) :=
  definitions.map fun d => (definitionPath directory d, Program.text style [d])

/-- Writes the program of some definitions, and gives back what goes to standard output. -/
def write {m : Type → Type} [Monad m] (storage : Storage m) (style : Style)
    (definitions : List Definition) : Output → m (Except Fault String)
  | standard => pure (.ok (Program.text style definitions))
  | file path => do
    match ← storage.writeText path (Program.text style definitions) with
    | .ok () => pure (.ok "")
    | .error fault => pure (.error fault)
  | directory path => do
    match ← storage.makeDirectories path with
    | .error fault => pure (.error fault)
    | .ok () =>
      match ← storage.writeAll (directoryFiles path style definitions) with
      | .ok () => pure (.ok "")
      | .error fault => pure (.error fault)

/-- What is noted when the program of so many definitions was written. -/
def events (definitions : Nat) : Output → List Event
  | standard => []
  | file path => [.programWritten path definitions]
  | directory path => [.programsWritten path definitions]

end Output

end CaptureIngest
