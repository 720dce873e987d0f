import CaptureIngest.Text.WhiteSpace

/-!
# Units of measure

A field may say in braces what it counts. The note is for the engine's type checker and for
readers; it changes nothing about how a value is decoded. Empty braces mark a plain count.
-/

namespace CaptureIngest

/-- What the values of a field measure. -/
inductive Measure
  | count
  | bytes
  | microseconds
  | squareMicroseconds
  | pdus
  /-- Seconds relative to another time in the record. -/
  | relativeSeconds
  deriving DecidableEq, Repr, Inhabited

namespace Measure

/-- Every unit, in declaration order. -/
def all : List Measure :=
  [count, bytes, microseconds, squareMicroseconds, pdus, relativeSeconds]

theorem mem_all (m : Measure) : m ∈ all := by
  cases m <;> decide

/-- The text between the braces. -/
def name : Measure → String
  | count => ""
  | bytes => "bytes"
  | microseconds => "microseconds"
  | squareMicroseconds => "microseconds^2"
  | pdus => "pdus"
  | relativeSeconds => "seconds(rel)"

/-- The unit with its braces. -/
def braced (m : Measure) : String :=
  "\x7b" ++ m.name ++ "\x7d"

/-- The unit that a text between braces names; white space around the name is skipped. -/
def ofText? (s : String) : Option Measure :=
  all.find? fun m => m.name == Text.trim s

end Measure

end CaptureIngest
