import CaptureIngest.Session

/-!
# The program

Runs a session on the files of the machine. Everything that decides is in `session`; here the four
operations on files are handed to the system, and its faults are sorted. The log is as loud as the
command line says, and its lines do not tell the time.
-/

namespace CaptureIngest

/-- The fault that an error of the system is. -/
def faultOfError : IO.Error → Fault
  | .noFileOrDirectory .. => .notFound
  | .alreadyExists .. => .alreadyExists
  | .inappropriateType _ 20 _ => .notDirectory
  | .inappropriateType _ 21 _ => .isDirectory
  | e => .other (toString e)

/-- An operation with its fault as a value. -/
def attempt {α : Type} (operation : IO α) : IO (Except Fault α) := do
  try
    return .ok (← operation)
  catch e =>
    return .error (faultOfError e)

/-- The text of a file of the machine. -/
def readFileText (path : String) : IO (Except Fault String) := do
  match ← attempt (IO.FS.readBinFile path) with
  | .error fault => return .error fault
  | .ok bytes =>
    match String.fromUTF8? bytes with
    | some text => return .ok text
    | none => return .error .notText

/-- Whether there is a file of the machine under a path. -/
def isFileOnDisk (path : String) : IO Bool := do
  try
    let directory ← IO.currentDir
    let data ← (directory / path).metadata
    return data.type == .file
  catch _ =>
    return false

/-- Whether there is a directory of the machine under a path. -/
def isDirectoryOnDisk (path : String) : IO Bool := do
  try
    let directory ← IO.currentDir
    (directory / path).isDir
  catch _ =>
    return false

/-- Makes a directory of the machine, which may be there already. -/
def ensureOnDisk (path : String) : IO (Except Fault Unit) := do
  match ← attempt (IO.FS.createDir path) with
  | .ok () => return .ok ()
  | .error fault => return if ← isDirectoryOnDisk path then .ok () else .error fault

/-- Makes the first of some directories of the machine; each of them is inside the next, which is
made before it if the way to it is not there. -/
def makeOnDisk : List String → IO (Except Fault Unit)
  | [] => return .ok ()
  | path :: outer => do
    match ← ensureOnDisk path, outer with
    | .error .notFound, _ :: _ =>
      match ← makeOnDisk outer with
      | .ok () => ensureOnDisk path
      | fault => return fault
    | result, _ => return result

/-- A path and the directories above it, the nearest first. -/
def ancestry (path : String) : List String :=
  let names := path.splitOn "/"
  (((List.range names.length).map fun n => "/".intercalate (names.take (n + 1))).filter
    fun s => !s.isEmpty).reverse

/-- The files of the machine. -/
def diskStorage : Storage IO where
  readText := readFileText
  isFile := isFileOnDisk
  makeDirectories path := makeOnDisk (ancestry path)
  writeText path text := attempt (IO.FS.writeFile path text)

end CaptureIngest

/-- Runs one session and ends with its exit code. -/
def main (arguments : List String) : IO UInt32 := do
  let environment ← IO.getEnv "SNIFFDEF_CONFIG"
  let outcome ← CaptureIngest.session CaptureIngest.diskStorage environment arguments .plain
  IO.print outcome.stdout
  IO.eprint outcome.stderr
  return outcome.code
