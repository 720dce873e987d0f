import CaptureIngest.Failure

/-!
# Transports and their options

Records reach the engine either as capture files, which a pattern finds, or over a topic of a
message bus. A run chooses one transport; the options of both are kept, and only those of the
chosen one are read.
-/

namespace CaptureIngest

/-- How records reach the engine. -/
inductive Transport
  /-- Capture files that a pattern finds. -/
  | file
  /-- A topic of a message bus. -/
  | bus
  deriving DecidableEq, Repr, Inhabited

namespace Transport

/-- The name under which a transport is configured. -/
def name : Transport → String
  | file => "file"
  | bus => "bus"

/-- The spellings of each transport, in lower case. -/
def spellings : List (String × Transport) :=
  [("file", file), ("files", file), ("bus", bus), ("kafka", bus)]

/-- The transport that a text names, white space around it and letter case apart. -/
def ofText? (s : String) : Option Transport :=
  spellings.lookup (Text.nameKey s)

/-- The transport that a text names, or the failure that names the text. -/
def ofText (s : String) : Except Failure Transport :=
  match ofText? s with
  | some t => .ok t
  | none => .error (.unsupportedTransport s)

end Transport

/-! ## Options -/

/-- What is common to all capture files. -/
@[ext]
structure FileOptions where
  /-- What stands before the protocol's token in a path; may hold wildcards. -/
  pathPrefix : String
  /-- The files are compressed. -/
  compressed : Bool
  /-- The files are deleted once they are read. -/
  delete : Bool
  deriving DecidableEq, Repr

/-- What is common to all topics. -/
structure BusOptions where
  /-- The brokers to ask. -/
  broker : String
  /-- The first segment of a topic name. -/
  topicRoot : String
  /-- How many bytes of a partition are fetched at once, if that is limited. -/
  fetchLimit : Option UInt64
  deriving DecidableEq, Repr

/-- The options of both transports. -/
structure SourceOptions where
  /-- For capture files. -/
  files : FileOptions
  /-- For topics. -/
  bus : BusOptions
  deriving DecidableEq, Repr

/-- The options of capture files unless others are given. -/
def FileOptions.default : FileOptions :=
  ⟨"/srv/nova/ramen/*.*.", false, true⟩

/-- The options of topics unless others are given. -/
def BusOptions.default : BusOptions :=
  ⟨"localhost:9092", "pvx", some 1000000⟩

/-- The options unless others are given. -/
def SourceOptions.default : SourceOptions :=
  ⟨.default, .default⟩

end CaptureIngest
