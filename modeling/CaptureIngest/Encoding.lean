import CaptureIngest.Text.WhiteSpace

/-!
# Record encodings

A capture holds its records either as tab-separated text or as binary rows. The encoding
decides the extension of capture files, a segment of the topic name, and how the engine decodes
a record.
-/

namespace CaptureIngest

/-- How the records of a capture are encoded. -/
inductive Encoding
  /-- Tab-separated text, one record a line. -/
  | csv
  /-- Binary rows. -/
  | rowBinary
  deriving DecidableEq, Repr, Inhabited

namespace Encoding

/-- Every encoding, in the order in which they are listed. -/
def all : List Encoding := [csv, rowBinary]

theorem mem_all (e : Encoding) : e ∈ all := by
  cases e <;> decide

/-- The name under which an encoding is configured and shown. -/
def name : Encoding → String
  | csv => "csv"
  | rowBinary => "rowbinary"

/-- The extension of capture files. -/
def fileExtension : Encoding → String
  | csv => "csv"
  | rowBinary => "chb"

/-- The segment that stands between namespace and protocol in a topic name, if there is one. -/
def topicSegment? : Encoding → Option String
  | csv => none
  | rowBinary => some "chb"

/-- Position in the order of encodings. -/
def rank : Encoding → Nat
  | csv => 0
  | rowBinary => 1

/-- The spellings of each encoding, in lower case. -/
def spellings : List (String × Encoding) :=
  [("csv", csv), ("text", csv), ("tsv", csv),
   ("rowbinary", rowBinary), ("row-binary", rowBinary), ("chb", rowBinary), ("binary", rowBinary)]

/-- The encoding that a text names, white space around it and letter case apart. -/
def ofText? (s : String) : Option Encoding :=
  spellings.lookup (Text.nameKey s)

end Encoding

end CaptureIngest
