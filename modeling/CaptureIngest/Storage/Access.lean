/-!
# Access to files

What the program asks of a file system: to read a text, to tell whether a path is a file, to make
directories and to write a text. `Storage` holds the four operations for any monad, so that a run
over files of a disk and a run over a tree of files in memory are one definition.
-/

namespace CaptureIngest

/-- Why an operation on files failed. -/
inductive Fault
  /-- There is nothing under the path. -/
  | notFound
  /-- The path goes through something that is not a directory. -/
  | notDirectory
  /-- There is a directory where a file is meant. -/
  | isDirectory
  /-- There is something already where a directory is to be made. -/
  | alreadyExists
  /-- The file is no text in UTF-8. -/
  | notText
  /-- Anything else, in the words of the system. -/
  | other (text : String)
  deriving DecidableEq, Repr

/-- The wording of a fault. -/
def Fault.message : Fault → String
  | notFound => "No such file or directory (os error 2)"
  | notDirectory => "Not a directory (os error 20)"
  | isDirectory => "Is a directory (os error 21)"
  | alreadyExists => "File exists (os error 17)"
  | notText => "stream did not contain valid UTF-8"
  | other text => text

/-- The operations on files. -/
structure Storage (m : Type → Type) where
  /-- The text of a file. -/
  readText : String → m (Except Fault String)
  /-- Whether there is a file under a path. -/
  isFile : String → m Bool
  /-- Makes a directory and those above it, as far as they are not there. -/
  makeDirectories : String → m (Except Fault Unit)
  /-- Writes a text as the content of a file. -/
  writeText : String → String → m (Except Fault Unit)

namespace Storage

/-- The path of a name in a directory. -/
def join (directory name : String) : String :=
  if directory.isEmpty then name
  else if directory.toList.getLast? = some '/' then directory ++ name
  else directory ++ "/" ++ name

/-- Writes files one after the other, up to the first that cannot be written. -/
def writeAll {m : Type → Type} [Monad m] (storage : Storage m) :
    List (String × String) → m (Except Fault Unit)
  | [] => pure (.ok ())
  | (path, text) :: rest => do
    match ← storage.writeText path text with
    | .error fault => pure (.error fault)
    | .ok () => storage.writeAll rest

end Storage

end CaptureIngest
