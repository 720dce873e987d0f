import CaptureIngest.Plan
import CaptureIngest.Toml.Document

/-!
# Settings in a file

Settings are kept in a TOML document. Every key may be missing and then has its default, also
inside the tables `files` and `bus`; a key that is not known is refused wherever it stands. In
place of a table, `files` and `bus` may be arrays, whose items are the values of the table's keys
in order. The style is the name of a style, or a table whose only key is that name and whose value
is empty.
-/

namespace CaptureIngest

/-- Why a document holds no settings. -/
inductive SettingsFault
  /-- The text is no TOML document. -/
  | malformed
  /-- There is no setting of this name. -/
  | unknownKey (key : String)
  /-- The value of this setting is of another type than it must be. -/
  | badValue (key : String)
  deriving DecidableEq, Repr

/-- The wording of a fault. The library that reads documents has wordings of its own, with the place in
the document; these stand in for them. -/
def SettingsFault.message : SettingsFault → String
  | malformed => "TOML parse error: the file is no TOML document"
  | unknownKey key => "TOML parse error: unknown key " ++ key
  | badValue key => "TOML parse error: bad value of " ++ key

namespace Settings

open Toml

/-! ## Values -/

/-- A string. -/
def asText : Value → Option String
  | .text s => some s
  | _ => none

/-- A truth value. -/
def asFlag : Value → Option Bool
  | .boolean b => some b
  | _ => none

/-- An integer that is not negative. -/
def asSize : Value → Option UInt64
  | .integer n => if 0 ≤ n then some (UInt64.ofNat n.toNat) else none
  | _ => none

/-- Strings, if all items are. -/
def textsOf : List Value → Option (List String)
  | [] => some []
  | v :: rest => do
    let s ← asText v
    let ss ← textsOf rest
    return s :: ss

/-- An array of strings. -/
def asTexts : Value → Option (List String)
  | .array items => textsOf items
  | _ => none

/-- The style of this name. -/
def styleOfName : String → Option Style
  | "resolved" => some .resolved
  | "parameterized" => some .parameterized
  | _ => none

/-- Whether an array or a table holds nothing. -/
def isEmptyValue : Value → Bool
  | .array items => items.isEmpty
  | .table _ entries => entries.isEmpty
  | .tables items => items.isEmpty
  | _ => false

/-- A style. -/
def asStyle : Value → Option Style
  | .text s => styleOfName s
  | .table _ [(s, v)] => if isEmptyValue v then styleOfName s else none
  | _ => none

/-- The entries of a table with these keys. -/
def asSection (keys : List String) : Value → Option Entries
  | .table _ entries => some entries
  | .array items => some (keys.zip items)
  | .tables items => some (keys.zip (items.map (.table .header)))
  | _ => none

/-! ## Tables -/

/-- The value of a key, or the default if the key is missing. -/
def setting {α : Type} (entries : Entries) (key : String) (as : Value → Option α) (default : α) :
    Except SettingsFault α :=
  match entries.lookup key with
  | none => .ok default
  | some v =>
    match as v with
    | some a => .ok a
    | none => .error (.badValue key)

/-- Refuses a table with a key that is none of these. -/
def checkKeys (keys : List String) (entries : Entries) : Except SettingsFault Unit :=
  match entries.find? fun e => !keys.contains e.1 with
  | none => .ok ()
  | some e => .error (.unknownKey e.1)

/-- The keys of the table for capture files. -/
def fileKeys : List String := ["prefix", "compressed", "delete"]

/-- The keys of the table for topics. -/
def busKeys : List String := ["broker", "namespace", "max_message_size"]

/-- The keys of a document. -/
def keys : List String :=
  ["transport", "encoding", "style", "protocols", "versions", "layouts", "files", "bus"]

/-- The settings for capture files in a table. -/
def filesOfEntries (entries : Entries) : Except SettingsFault FileOptions := do
  checkKeys fileKeys entries
  let pathPrefix ← setting entries "prefix" asText FileOptions.default.pathPrefix
  let compressed ← setting entries "compressed" asFlag FileOptions.default.compressed
  let delete ← setting entries "delete" asFlag FileOptions.default.delete
  return ⟨pathPrefix, compressed, delete⟩

/-- The settings for topics in a table. -/
def busOfEntries (entries : Entries) : Except SettingsFault BusSettings := do
  checkKeys busKeys entries
  let broker ← setting entries "broker" asText BusSettings.default.broker
  let topicRoot ← setting entries "namespace" asText BusSettings.default.topicRoot
  let maxMessageSize ← setting entries "max_message_size" asSize BusSettings.default.maxMessageSize
  return ⟨broker, topicRoot, maxMessageSize⟩

/-- The settings in the tree of a document. -/
def ofEntries (entries : Entries) : Except SettingsFault Settings := do
  checkKeys keys entries
  let transport ← setting entries "transport" asText Settings.default.transport
  let encoding ← setting entries "encoding" asText Settings.default.encoding
  let style ← setting entries "style" asStyle Settings.default.style
  let protocols ← setting entries "protocols" asTexts Settings.default.protocols
  let versions ← setting entries "versions" asTexts Settings.default.versions
  let layouts ← setting entries "layouts" (fun v => (asText v).map some) Settings.default.layouts
  let files ← filesOfEntries (← setting entries "files" (asSection fileKeys) [])
  let bus ← busOfEntries (← setting entries "bus" (asSection busKeys) [])
  return ⟨transport, encoding, style, protocols, versions, layouts, files, bus⟩

/-- The settings in the text of a document. -/
def ofDocument (text : String) : Except SettingsFault Settings :=
  match Toml.read text with
  | none => .error .malformed
  | some entries => ofEntries entries

end Settings

end CaptureIngest
