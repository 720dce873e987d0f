import CaptureIngest.Layout
import CaptureIngest.Text.Lines

/-!
# Listings

Two tables for readers: the protocols with all their names, and the fields of a schema.
-/

namespace CaptureIngest.Listing

/-- Cells side by side, each with the width of its column. -/
def row (cells : List (Nat × String)) : String :=
  " ".intercalate (cells.map fun (width, s) => Text.padRight width s)

/-! ## Protocols -/

/-- A row of the table of protocols. -/
def protocolRow (name title csvFile csvTopic csvName binaryFile binaryName : String) : String :=
  row [(16, name), (22, title), (16, csvFile), (16, csvTopic), (16, csvName), (20, binaryFile),
    (16, binaryName)]

/-- The table of protocols. -/
def protocols : String :=
  Text.endLines <|
    [protocolRow "Protocol" "Name" "CSV file" "CSV topic" "CSV definition" "CHB file/topic"
        "CHB definition",
      Text.rule 128]
    ++ Protocol.all.map fun p =>
        protocolRow p.name p.title (p.fileToken .csv) (p.topicToken .csv) (p.definitionName .csv)
          (p.fileToken .rowBinary) (p.definitionName .rowBinary)

/-! ## Schemas -/

/-- A row of the table of fields. -/
def fieldRow (position name type nullable unitText note : String) : String :=
  Text.padLeft 4 position ++ "  "
    ++ row [(32, name), (8, type), (8, nullable), (16, unitText), (0, note)]

/-- The row of the field at a position. -/
def rowOfField (position : Nat) (f : Field) : String :=
  fieldRow (Nat.repr position) f.name f.kind.name (if f.nullable then "YES" else "NO")
    (f.measure.elim "" (·.braced)) (f.note.getD "")

/-- The rows of the fields from a position on. -/
def fieldRows (position : Nat) : List Field → List String
  | [] => []
  | f :: rest => rowOfField position f :: fieldRows (position + 1) rest

/-- The table of a schema's fields, with an empty line behind it. -/
def schema (s : Schema) : String :=
  Text.endLines <|
    ["Schema: " ++ s.key.render, Text.rule 80,
      fieldRow "#" "Field" "Type" "Nullable" "Unit" "Notes", Text.rule 80]
    ++ fieldRows 1 s.fields ++ [""]

end CaptureIngest.Listing
