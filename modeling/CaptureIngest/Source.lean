import CaptureIngest.Source.Transport

/-!
# Sources

Where one definition reads its records: the files that a pattern finds, or a topic. `Source.bind`
finds the source of a key on a transport. Nothing here looks at a disk or asks a broker.
-/

namespace CaptureIngest

/-- What decompresses capture files. -/
def decompressor : String := "lz4 -d -c"

/-- What the names of compressed files end in. -/
def compressedSuffix : String := ".lz4"

/-- Capture files of one protocol, version and encoding. -/
structure FileSource where
  /-- What stands before the pattern in a path. -/
  pathPrefix : String
  /-- The protocol's token with the version and the extension, such as `tcp_v30.*csv`. -/
  pattern : String
  /-- The files are compressed. -/
  compressed : Bool
  /-- The files are deleted once they are read. -/
  delete : Bool
  deriving DecidableEq, Repr

namespace FileSource

/-- The pattern for whole paths. -/
def glob (s : FileSource) : String :=
  s.pathPrefix ++ s.pattern ++ if s.compressed then compressedSuffix else ""

/-- The command that each file goes through before it is read, if there is one. -/
def preprocessor? (s : FileSource) : Option String :=
  if s.compressed then some decompressor else none

/-- The pattern for the capture files of a key. Text captures carry the exact version; in the
names of binary ones a minor revision may stand before it. -/
def patternOf (key : Key) : String :=
  let token := key.protocol.fileToken key.encoding
  match key.encoding with
  | .csv => token ++ "_" ++ key.version.text ++ ".*" ++ key.encoding.fileExtension
  | .rowBinary => token ++ "_*" ++ key.version.text ++ ".*" ++ key.encoding.fileExtension

end FileSource

/-- A topic with the records of one protocol and encoding. -/
structure TopicSource where
  /-- The first segment of the topic. -/
  topicRoot : String
  /-- The segment for the encoding, if there is one. -/
  encodingSegment : Option String
  /-- The segment for the protocol. -/
  token : String
  /-- The brokers to ask. -/
  broker : String
  /-- How many bytes of a partition are fetched at once, if that is limited. -/
  fetchLimit : Option UInt64
  deriving DecidableEq, Repr

/-- The topic's name: its segments with dots between them. -/
def TopicSource.topic (s : TopicSource) : String :=
  match s.encodingSegment with
  | some segment => s.topicRoot ++ "." ++ segment ++ "." ++ s.token
  | none => s.topicRoot ++ "." ++ s.token

/-- Where a definition reads its records. -/
inductive Source
  /-- Capture files. -/
  | files (source : FileSource)
  /-- A topic. -/
  | topic (source : TopicSource)
  deriving DecidableEq, Repr

namespace Source

/-- The capture files, if the source is files. -/
def files? : Source → Option FileSource
  | files s => some s
  | topic _ => none

/-- The topic, if the source is one. -/
def topic? : Source → Option TopicSource
  | files _ => none
  | topic s => some s

/-- The source of a key's records on a transport. -/
def bind (transport : Transport) (key : Key) (options : SourceOptions) : Source :=
  match transport with
  | .file =>
    .files ⟨options.files.pathPrefix, FileSource.patternOf key, options.files.compressed,
      options.files.delete⟩
  | .bus =>
    .topic ⟨options.bus.topicRoot, key.encoding.topicSegment?,
      key.protocol.topicToken key.encoding, options.bus.broker, options.bus.fetchLimit⟩

end Source

end CaptureIngest
