import CaptureIngest.CommandLine.Scan
import CaptureIngest.Output
import CaptureIngest.SettingsFile

/-!
# Arguments of the program

The options of the program, and what a command line says with them. `Arguments.parse` reads a
command line, `Arguments.apply` puts what it says over settings: an option that is given replaces
its setting, and every other setting stays.
-/

namespace CaptureIngest

open CommandLine

/-- An option of the program. -/
inductive Flag
  | config | transport | encoding | style | schemaVersion | layouts | pathPrefix | compressed | delete
  | broker | topicRoot | maxMessageSize | output | outputDir | listProtocols | schema | verbose
  | help | version
  deriving DecidableEq, Repr

namespace Flag

/-- Every option. -/
def all : List Flag :=
  [config, transport, encoding, style, schemaVersion, layouts, pathPrefix, compressed, delete,
   broker, topicRoot, maxMessageSize, output, outputDir, listProtocols, schema, verbose,
   help, version]

theorem mem_all (f : Flag) : f ∈ all := by
  cases f <;> decide

/-- The long name. -/
def long : Flag → String
  | config => "config"
  | transport => "transport"
  | encoding => "encoding"
  | style => "style"
  | schemaVersion => "schema-version"
  | layouts => "layouts"
  | pathPrefix => "prefix"
  | compressed => "compressed"
  | delete => "delete"
  | broker => "broker"
  | topicRoot => "namespace"
  | maxMessageSize => "max-message-size"
  | output => "output"
  | outputDir => "output-dir"
  | listProtocols => "list-protocols"
  | schema => "schema"
  | verbose => "verbose"
  | help => "help"
  | version => "version"

/-- The short name, if there is one. -/
def short? : Flag → Option Char
  | config => some 'c'
  | transport => some 't'
  | encoding => some 'e'
  | output => some 'o'
  | verbose => some 'v'
  | help => some 'h'
  | version => some 'V'
  | _ => none

/-- Whether an option has a value. -/
def arity : Flag → Arity
  | listProtocols | verbose | help | version => .none
  | compressed | delete => .optional
  | _ => .one

/-- The options that the program knows. -/
def options : Options Flag where
  long? s := all.find? fun f => f.long == s
  short? c := all.find? fun f => f.short? == some c
  arity := arity

end Flag

/-- What a command line says. -/
structure Arguments where
  /-- The protocols to generate. -/
  protocols : List String := []
  /-- The file with settings. -/
  config : Option String := none
  /-- The transport. -/
  transport : Option String := none
  /-- The encoding. -/
  encoding : Option String := none
  /-- The style. -/
  style : Option Style := none
  /-- The versions. -/
  versions : List String := []
  /-- The directory with layout texts. -/
  layouts : Option String := none
  /-- What stands before the names of capture files. -/
  pathPrefix : Option String := none
  /-- Whether capture files are compressed. -/
  compressed : Option Bool := none
  /-- Whether capture files are deleted once they are read. -/
  delete : Option Bool := none
  /-- The brokers. -/
  broker : Option String := none
  /-- The first segment of topics. -/
  topicRoot : Option String := none
  /-- The fetch limit; zero for none. -/
  maxMessageSize : Option UInt64 := none
  /-- The file for the program. -/
  output : Option String := none
  /-- The directory for a program of each definition. -/
  outputDir : Option String := none
  /-- Whether the protocols are to be listed. -/
  listProtocols : Bool := false
  /-- The protocol whose schema is to be shown. -/
  schema : Option String := none
  /-- How many times more messages were asked for. -/
  verbose : Nat := 0
  deriving DecidableEq, Repr

namespace Arguments

/-! ## Values -/

/-- A path, which is not empty. -/
def pathOf (s : String) : Except Problem String :=
  if s.isEmpty then .error .badValue else .ok s

/-- A truth value. -/
def flagOf : String → Except Problem Bool
  | "true" => .ok true
  | "false" => .ok false
  | _ => .error .badValue

/-- A style. -/
def styleOf (s : String) : Except Problem Style :=
  match Settings.styleOfName s with
  | some style => .ok style
  | none => .error .badValue

/-- The number that decimal digits spell. -/
def decimal (ds : List Char) : Nat :=
  ds.foldl (fun n c => 10 * n + (c.toNat - 48)) 0

/-- A number of 64 bits, in decimal digits, with or without a plus sign. -/
def sizeOf (s : String) : Except Problem UInt64 :=
  let ds :=
    match s.toList with
    | '+' :: ds => ds
    | ds => ds
  if ds.isEmpty || !ds.all Char.isDigit || UInt64.size ≤ decimal ds then .error .notANumber
  else .ok (UInt64.ofNat (decimal ds))

/-! ## Reading a command line -/

/-- The highest count of requests for more messages. -/
def maxVerbose : Nat := 255

/-- The arguments with the value of one more option. -/
def set (a : Arguments) (f : Flag) (v : String) : Except Problem Arguments :=
  match f with
  | .config => (pathOf v).map fun v => { a with config := some v }
  | .transport => .ok { a with transport := some v }
  | .encoding => .ok { a with encoding := some v }
  | .style => (styleOf v).map fun v => { a with style := some v }
  | .schemaVersion => .ok { a with versions := a.versions ++ [v] }
  | .layouts => (pathOf v).map fun v => { a with layouts := some v }
  | .pathPrefix => .ok { a with pathPrefix := some v }
  | .compressed => (flagOf v).map fun v => { a with compressed := some v }
  | .delete => (flagOf v).map fun v => { a with delete := some v }
  | .broker => .ok { a with broker := some v }
  | .topicRoot => .ok { a with topicRoot := some v }
  | .maxMessageSize => (sizeOf v).map fun v => { a with maxMessageSize := some v }
  | .output => (pathOf v).map fun v => { a with output := some v }
  | .outputDir => (pathOf v).map fun v => { a with outputDir := some v }
  | .listProtocols => .ok { a with listProtocols := true }
  | .schema => .ok { a with schema := some v }
  | .verbose => .ok { a with verbose := min maxVerbose (a.verbose + 1) }
  | .help => .error .help
  | .version => .error .version

/-- Whether an option may be given more than once. -/
def isRepeatable : Flag → Bool
  | .schemaVersion | .verbose | .help | .version => true
  | _ => false

/-- The value of an option for which none is given, if that is allowed. -/
def impliedValue (f : Flag) : Except Problem String :=
  match f.arity with
  | .one => .error .badValue
  | _ => .ok "true"

/-- The arguments with one more item; `given` are the options that came before. -/
def accept (given : List Flag) (a : Arguments) : Item Flag → Except Problem (List Flag × Arguments)
  | .positional s => .ok (given, { a with protocols := a.protocols ++ [s] })
  | .option f value => do
    let v ← match value with
      | some v => .ok v
      | none => impliedValue f
    if given.contains f && !isRepeatable f then .error .conflict
    else
      let a ← a.set f v
      return (f :: given, a)

/-- The arguments with more items. -/
def acceptAll (given : List Flag) (a : Arguments) : List (Item Flag) → Except Problem Arguments
  | [] => .ok a
  | item :: rest =>
    match accept given a item with
    | .error p => .error p
    | .ok (given, a) => acceptAll given a rest

/-- The arguments with the settings file of the environment, unless the command line names one. -/
def withEnvironment (environment : Option String) (a : Arguments) : Except Problem Arguments :=
  match a.config, environment with
  | none, some path => a.set .config path
  | _, _ => .ok a

/-- What a command line says, in an environment that may name a settings file. -/
def parse (environment : Option String) (commandLine : List String) : Except Problem Arguments :=
  let (items, problem) := scan Flag.options none commandLine
  match acceptAll [] {} items with
  | .error p => .error p
  | .ok a =>
    match problem with
    | some p => .error p
    | none =>
      match a.withEnvironment environment with
      | .error p => .error p
      | .ok a =>
        if a.output.isSome && a.outputDir.isSome then .error .conflict else .ok a

/-! ## Applying arguments -/

/-- The settings with all that was said in their place. -/
def apply (a : Arguments) (s : Settings) : Settings where
  transport := a.transport.getD s.transport
  encoding := a.encoding.getD s.encoding
  style := a.style.getD s.style
  protocols := if a.protocols.isEmpty then s.protocols else a.protocols
  versions := if a.versions.isEmpty then s.versions else a.versions
  layouts := a.layouts.or s.layouts
  files :=
    ⟨a.pathPrefix.getD s.files.pathPrefix, a.compressed.getD s.files.compressed,
      a.delete.getD s.files.delete⟩
  bus :=
    ⟨a.broker.getD s.bus.broker, a.topicRoot.getD s.bus.topicRoot,
      a.maxMessageSize.getD s.bus.maxMessageSize⟩

/-- Where the program goes. -/
def target (a : Arguments) : Output :=
  .choose a.output a.outputDir

end Arguments

end CaptureIngest
