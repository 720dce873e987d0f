import CaptureIngest.Layout.Reader
import CaptureIngest.Registry
import CaptureIngest.Storage.Access

/-!
# Directories of layout texts

A directory may hold, for each protocol, a text with its layout, in a file that is named after the
token of the protocol's capture files. Such a layout takes the place of the one that is registered
for every version asked for, in the encoding asked for. A text that is no layout rejects the keys
of its own protocol and no others; a file that is no text at all ends the loading.
-/

namespace CaptureIngest

/-- What a directory holds for one protocol. -/
inductive LayoutFile
  /-- No file. -/
  | absent
  /-- A file that cannot be read. -/
  | unreadable (fault : Fault)
  /-- A text. -/
  | text (s : String)
  deriving DecidableEq, Repr

/-- The entry that a layout text earns. -/
def Entry.ofText (text : String) : Entry :=
  match Layout.readFields text with
  | .ok fields => .ofFields fields
  | .error reason => .rejected reason

namespace Registry

/-- Settles a key by a layout text under every version of a protocol, and counts the layouts that
were accepted. -/
def loadText (p : Protocol) (encoding : Encoding) (text : String) (r : Registry) :
    List Version → Nat × Registry
  | [] => (0, r)
  | v :: rest =>
    let entry := Entry.ofText text
    let (n, r) := loadText p encoding text (r.settle ⟨p, v, encoding⟩ entry) rest
    (entry.isLoaded.toNat + n, r)

/-- Loads the layout texts of some protocols in order, and counts the layouts that were accepted.
Ends before the first protocol whose file cannot be read. -/
def loadLayouts (file : Protocol → LayoutFile) (versions : List Version) (encoding : Encoding)
    (r : Registry) : List Protocol → Except (Protocol × Fault) Nat × Registry
  | [] => (.ok 0, r)
  | p :: rest =>
    match file p with
    | .absent => loadLayouts file versions encoding r rest
    | .unreadable fault => (.error (p, fault), r)
    | .text s =>
      let (accepted, r) := loadText p encoding s r versions
      match loadLayouts file versions encoding r rest with
      | (.ok n, r) => (.ok (accepted + n), r)
      | (.error e, r) => (.error e, r)

end Registry

namespace LayoutFile

/-- The path of a protocol's layout file. -/
def path (directory : String) (p : Protocol) (encoding : Encoding) : String :=
  Storage.join directory (p.fileToken encoding ++ ".txt")

/-- What is there under a path. -/
def read {m : Type → Type} [Monad m] (storage : Storage m) (path : String) : m LayoutFile := do
  if ← storage.isFile path then
    match ← storage.readText path with
    | .ok s => pure (.text s)
    | .error fault => pure (.unreadable fault)
  else pure .absent

/-- What a directory holds for some protocols. -/
def readAll {m : Type → Type} [Monad m] (storage : Storage m) (directory : String)
    (encoding : Encoding) : List Protocol → m (List (Protocol × LayoutFile))
  | [] => pure []
  | p :: rest => do
    let file ← read storage (path directory p encoding)
    let files ← readAll storage directory encoding rest
    pure ((p, file) :: files)

/-- The file of a protocol among those that were read. -/
def ofProtocol (files : List (Protocol × LayoutFile)) (p : Protocol) : LayoutFile :=
  (files.lookup p).getD .absent

/-- What is noted when a layout text is loaded under some versions of a protocol. -/
def textEvents (directory : String) (p : Protocol) (encoding : Encoding) (text : String)
    (versions : List Version) : List Event :=
  versions.flatMap fun v =>
    let entry := Entry.ofText text
    entry.event ⟨p, v, encoding⟩ ::
      if entry.isLoaded then [.layoutLoaded (path directory p encoding) v] else []

/-- What is noted when the layout texts of some protocols are loaded in order, up to the first file
that cannot be read. -/
def events (directory : String) (file : Protocol → LayoutFile) (versions : List Version)
    (encoding : Encoding) : List Protocol → List Event
  | [] => []
  | p :: rest =>
    match file p with
    | .absent =>
      .layoutMissing (path directory p encoding) :: events directory file versions encoding rest
    | .unreadable _ => []
    | .text s =>
      textEvents directory p encoding s versions ++ events directory file versions encoding rest

end LayoutFile

namespace Registry

/-- Loads the layout texts that were read from a directory for some protocols. A failure names the file
that cannot be read, and leaves the layouts of the protocols before it in place. -/
def loadFiles (directory : String) (versions : List Version) (encoding : Encoding)
    (protocols : List Protocol) (files : List (Protocol × LayoutFile)) (r : Registry) :
    Except (String × Fault) Nat × Registry :=
  let (loaded, r) := r.loadLayouts (LayoutFile.ofProtocol files) versions encoding protocols
  (loaded.mapError fun (p, fault) => (LayoutFile.path directory p encoding, fault), r)

/-- Loads the layout texts of a directory for some protocols. -/
def loadDirectory {m : Type → Type} [Monad m] (storage : Storage m) (directory : String)
    (versions : List Version) (encoding : Encoding) (protocols : List Protocol) (r : Registry) :
    m (Except (String × Fault) Nat × Registry) := do
  let files ← LayoutFile.readAll storage directory encoding protocols
  return r.loadFiles directory versions encoding protocols files

end Registry

end CaptureIngest
