import CaptureIngest.Definition.Clause

/-!
# Settings and plans

Settings say in texts what a run should generate; `Settings.resolve` makes a plan of them, in
which every name is known. Settings hold texts so that a bad name is reported as a failure of its
own and not as an error in a file. An empty list of protocols stands for all of them, and a
message size of zero for no limit.

`Plan.settings` writes a plan back as settings, in the canonical spelling of every name.
-/

namespace CaptureIngest

/-- The settings for topics. -/
@[ext]
structure BusSettings where
  /-- The brokers to ask. -/
  broker : String
  /-- The first segment of a topic name. -/
  topicRoot : String
  /-- How many bytes of a partition are fetched at once; zero for no limit. -/
  maxMessageSize : UInt64
  deriving DecidableEq, Repr

/-- What to generate, in texts. -/
@[ext]
structure Settings where
  /-- The name of the transport. -/
  transport : String
  /-- The name of the encoding. -/
  encoding : String
  /-- How sources are written. -/
  style : Style
  /-- The names of the protocols; empty for all. -/
  protocols : List String
  /-- The versions. -/
  versions : List String
  /-- The directory with layout texts, if there is one. -/
  layouts : Option String
  /-- The options of capture files. -/
  files : FileOptions
  /-- The options of topics. -/
  bus : BusSettings
  deriving DecidableEq, Repr

/-- What to generate. -/
structure Plan where
  /-- How records reach the engine. -/
  transport : Transport
  /-- How records are encoded. -/
  encoding : Encoding
  /-- How sources are written. -/
  style : Style
  /-- The protocols, in the order in which they are generated. -/
  protocols : List Protocol
  /-- The versions, in the order in which they are generated. -/
  versions : List Version
  /-- The directory with layout texts, if there is one. -/
  layouts : Option String
  /-- The options of sources. -/
  options : SourceOptions
  deriving DecidableEq, Repr

namespace BusSettings

/-- The settings for topics unless others are given. -/
def default : BusSettings :=
  ⟨BusOptions.default.broker, BusOptions.default.topicRoot, BusOptions.default.fetchLimit.getD 0⟩

/-- The options for topics that are meant. -/
def options (s : BusSettings) : BusOptions :=
  ⟨s.broker, s.topicRoot, if s.maxMessageSize = 0 then none else some s.maxMessageSize⟩

end BusSettings

namespace Settings

/-- The settings unless others are given. -/
def default : Settings where
  transport := Transport.file.name
  encoding := Encoding.csv.name
  style := .resolved
  protocols := []
  versions := [Version.v30.text]
  layouts := none
  files := .default
  bus := .default

instance : Inhabited Settings := ⟨default⟩

/-- Reads each text, up to the first that fails. -/
def readAll {α : Type} (read : String → Except Failure α) : List String → Except Failure (List α)
  | [] => .ok []
  | s :: rest => do
    let a ← read s
    let as ← readAll read rest
    return a :: as

/-- The protocols that are meant. -/
def requestedProtocols (names : List String) : Except Failure (List Protocol) :=
  if names.isEmpty then .ok Protocol.all else readAll Protocol.ofText names

/-- The plan that settings make. Names are looked up in the order transport, encoding, protocols,
versions, and the first unknown one is the failure. -/
def resolve (s : Settings) : Except Failure Plan := do
  let transport ← Transport.ofText s.transport
  let encoding ← Encoding.ofText s.encoding
  let protocols ← requestedProtocols s.protocols
  let versions ← readAll Version.ofText s.versions
  return ⟨transport, encoding, s.style, protocols, versions, s.layouts, ⟨s.files, s.bus.options⟩⟩

end Settings

/-- A plan as settings. -/
def Plan.settings (p : Plan) : Settings where
  transport := p.transport.name
  encoding := p.encoding.name
  style := p.style
  protocols := p.protocols.map (·.name)
  versions := p.versions.map (·.text)
  layouts := p.layouts
  files := p.options.files
  bus := ⟨p.options.bus.broker, p.options.bus.topicRoot, p.options.bus.fetchLimit.getD 0⟩

end CaptureIngest
