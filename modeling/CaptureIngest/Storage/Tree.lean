import CaptureIngest.Storage.Access

/-!
# A tree of files

Files and directories below a root, as a value, and the working directory among them. A place is the
list of names that lead from the root to it. A path is what a user writes: it leads from the root if it
begins with a slash and from the working directory otherwise, and may hold empty pieces, `.` and `..`.
Above the root there is the root.

`Tree.storage` answers the operations of `Storage` from a tree, with the faults of a Linux system.
Links, permissions and limits on the length of names are no part of a tree.
-/

namespace CaptureIngest

/-- What a file holds. -/
inductive Content
  /-- A text. -/
  | text (s : String)
  /-- Bytes that are no text in UTF-8. -/
  | bytes
  deriving DecidableEq, Repr

/-- What is under a place. -/
inductive Node
  /-- A file. -/
  | file (content : Content)
  /-- A directory. -/
  | directory
  deriving DecidableEq, Repr

/-- Files and directories; of two entries for one place the first counts. -/
structure Tree where
  /-- The entries, by their places. -/
  entries : List (List String × Node)
  /-- The place of the working directory, which is there together with those above it. -/
  base : List String
  deriving DecidableEq, Repr

namespace Tree

/-- The tree with a working directory that holds nothing. -/
def empty : Tree := ⟨[], ["work"]⟩

/-- What is under a place. -/
def node? (t : Tree) (place : List String) : Option Node :=
  if place <+: t.base then some .directory else t.entries.lookup place

/-- The tree with another node under a place. -/
def put (t : Tree) (place : List String) (node : Node) : Tree :=
  { t with entries := (place, node) :: t.entries }

/-! ## Paths -/

/-- The pieces of a list of characters between slashes. -/
def piecesOf : List Char → List (List Char)
  | [] => [[]]
  | c :: rest =>
    if c = '/' then [] :: piecesOf rest
    else
      match piecesOf rest with
      | [] => [[c]]
      | piece :: pieces => (c :: piece) :: pieces

/-- The pieces of a path between its slashes. -/
def pieces (path : String) : List String :=
  (piecesOf path.toList).map String.ofList

/-- The pieces of the path of a directory; slashes at its end do not count. -/
def directoryPieces (path : String) : List String :=
  ((pieces path).reverse.dropWhile (· == "")).reverse

/-- The place from which a path leads: the root, or the working directory. -/
def start (t : Tree) (path : String) : List String :=
  if path.toList.head? = some '/' then [] else t.base

/-- The place that pieces lead to from a place. Whatever is passed through must be a directory;
under the last place there may be nothing. -/
def walk (t : Tree) (here : List String) : List String → Except Fault (List String)
  | [] => .ok here
  | piece :: rest =>
    match t.node? here with
    | none => .error .notFound
    | some (.file _) => .error .notDirectory
    | some .directory =>
      if piece = "" ∨ piece = "." then t.walk here rest
      else if piece = ".." then t.walk here.dropLast rest
      else t.walk (here ++ [piece]) rest

/-- The place of a path. -/
def locate (t : Tree) (path : String) : Except Fault (List String) :=
  if path.isEmpty then .error .notFound else t.walk (t.start path) (pieces path)

/-! ## Operations -/

/-- The text of a file. -/
def readText (t : Tree) (path : String) : Except Fault String := do
  let place ← t.locate path
  match t.node? place with
  | none => .error .notFound
  | some .directory => .error .isDirectory
  | some (.file .bytes) => .error .notText
  | some (.file (.text s)) => .ok s

/-- Whether there is a file under a path. -/
def isFile (t : Tree) (path : String) : Bool :=
  match t.locate path with
  | .ok place =>
    match t.node? place with
    | some (.file _) => true
    | _ => false
  | .error _ => false

/-- Whether there is a directory at the end of some pieces. -/
def isDirectory (t : Tree) (origin pieces : List String) : Bool :=
  match t.walk origin pieces with
  | .ok place => t.node? place == some .directory
  | .error _ => false

/-- The tree after a text was written. A path that ends in a slash can only be a directory. -/
def writeText (t : Tree) (path text : String) : Except Fault Tree := do
  if path.toList.getLast? = some '/' then
    let _ ← t.walk (t.start path) ((directoryPieces path).dropLast ++ ["."])
    .error .isDirectory
  else
    let place ← t.locate path
    match t.node? place with
    | some .directory => .error .isDirectory
    | _ => .ok (t.put place (.file (.text text)))

/-- The tree after one directory was made. -/
def makeDirectory (t : Tree) (origin pieces : List String) : Except Fault Tree := do
  let place ← t.walk origin pieces
  match t.node? place with
  | some _ => .error .alreadyExists
  | none => .ok (t.put place .directory)

/-- Makes a directory, which may be there already. -/
def ensureDirectory (t : Tree) (origin pieces : List String) : Except Fault Tree :=
  match t.makeDirectory origin pieces with
  | .ok t => .ok t
  | .error fault => if t.isDirectory origin pieces then .ok t else .error fault

/-- Makes a directory, and if the way to it is not there, first the directories above it; these
are given from the nearest to the farthest. -/
def ensureDirectories (t : Tree) (origin pieces : List String) :
    List (List String) → Except Fault Tree × Tree
  | [] => keep t (t.ensureDirectory origin pieces)
  | parent :: parents =>
    match t.ensureDirectory origin pieces with
    | .error .notFound =>
      match t.ensureDirectories origin parent parents with
      | (.error fault, t) => (.error fault, t)
      | (.ok _, t) => keep t (t.ensureDirectory origin pieces)
    | result => keep t result
where
  /-- A result with the tree that is left. -/
  keep (before : Tree) : Except Fault Tree → Except Fault Tree × Tree
    | .ok after => (.ok after, after)
    | .error fault => (.error fault, before)

/-- The directories above some pieces, from the nearest to the farthest. Empty pieces and dots
behind the first piece do not count. -/
def above (pieces : List String) : List (List String) :=
  let proper := pieces.take 1 ++ (pieces.drop 1).filter fun p => p != "" && p != "."
  ((List.range proper.length).drop 1).reverse.map fun n => proper.take n

/-- The outcome and the tree after directories were made. -/
def makeDirectories (t : Tree) (path : String) : Except Fault Unit × Tree :=
  if path.isEmpty then (.ok (), t)
  else
    let pieces := directoryPieces path
    match t.ensureDirectories (t.start path) pieces (above pieces) with
    | (.ok _, t) => (.ok (), t)
    | (.error fault, t) => (.error fault, t)

/-- The operations on a tree that is the state of a computation. -/
def storage : Storage (StateM Tree) where
  readText path := fun t => (t.readText path, t)
  isFile path := fun t => (t.isFile path, t)
  makeDirectories path := fun t => t.makeDirectories path
  writeText path text := fun t =>
    match t.writeText path text with
    | .ok after => (.ok (), after)
    | .error fault => (.error fault, t)

/-! ## Building and comparing trees -/

/-- The tree with a node at a place below the working directory, and directories on the way to it. -/
def insert (t : Tree) (place : List String) (node : Node) : Tree :=
  ((List.range place.length).drop 1).foldl
      (fun t n => t.put (t.base ++ place.take n) .directory) t
    |>.put (t.base ++ place) node

/-- The places of a tree. -/
def places (t : Tree) : List (List String) :=
  (t.entries.map (·.1)).eraseDups

/-- The files below the working directory of `after` that are not the same in `before`, each with the
names that lead to it from there. -/
def changedFiles (before after : Tree) : List (List String × Content) :=
  after.places.filterMap fun place =>
    match after.node? place with
    | some (.file content) =>
      if after.base <+: place ∧ before.node? place ≠ some (.file content) then
        some (place.drop after.base.length, content)
      else none
    | _ => none

end Tree

end CaptureIngest
