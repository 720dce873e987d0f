import CaptureIngest.Field.Kind
import CaptureIngest.Field.Measure

/-!
# Fields

One column of a capture record: a name, a type, whether a value may be missing, and what the
values measure. A note may document the field; it is shown in listings and never emitted.
-/

namespace CaptureIngest

/-- One column of a capture record. -/
structure Field where
  /-- The column's name. -/
  name : String
  /-- The type of its values. -/
  kind : Kind
  /-- Whether a value may be missing. -/
  nullable : Bool := false
  /-- What the values measure. -/
  measure : Option Measure := none
  /-- A remark for readers. -/
  note : Option String := none
  deriving DecidableEq, Repr, Inhabited

namespace Field

/-- The type with a question mark if a value may be missing. -/
def typeText (f : Field) : String :=
  f.kind.name ++ if f.nullable then "?" else ""

/-- The field as a field list writes it, such as `mtu_client u32? {bytes}`. -/
def render (f : Field) : String :=
  f.name ++ " " ++ f.typeText ++
    match f.measure with
    | none => ""
    | some m => " " ++ m.braced

/-- The field without its note, which is all that a field list tells. -/
def withoutNote (f : Field) : Field :=
  { f with note := none }

/-! ## Adjusting a field -/

/-- The same field with this unit. -/
def measured (f : Field) (m : Measure) : Field :=
  { f with measure := some m }

/-- The same field with this remark. -/
def noted (f : Field) (text : String) : Field :=
  { f with note := some text }

/-- The same field, with or without missing values. -/
def withNullable (f : Field) (nullable : Bool) : Field :=
  { f with nullable := nullable }

/-- The same field, whose values may be missing. -/
def orNull (f : Field) : Field :=
  f.withNullable true

/-! ## The shapes that records repeat -/

/-- A field that always has a value. -/
def required (name : String) (kind : Kind) : Field :=
  ⟨name, kind, false, none, none⟩

/-- A field whose value may be missing. -/
def optional (name : String) (kind : Kind) : Field :=
  ⟨name, kind, true, none, none⟩

/-- A counter. -/
def counter (name : String) : Field :=
  (required name .u32).measured .count

/-- A volume in bytes. -/
def bytes (name : String) (kind : Kind) : Field :=
  (required name kind).measured .bytes

/-- A sum of durations in microseconds. -/
def microsSum (name : String) : Field :=
  (required name .u64).measured .microseconds

/-- A sum of squared durations. -/
def microsSquareSum (name : String) : Field :=
  (required name .u128).measured .squareMicroseconds

/-- A time of the capture, in microseconds since the epoch. -/
def captureTime (name : String) : Field :=
  required name .u64

/-- An IPv4 address. -/
def ipv4 (name : String) : Field :=
  optional name .u32

/-- An IPv6 address. -/
def ipv6 (name : String) : Field :=
  optional name .string

/-- A MAC address. -/
def mac (name : String) : Field :=
  optional name .u64

end Field

end CaptureIngest
