/-!
# Defects of a layout

Why a text is no layout, or a list of fields no layout that may be used. Each cause has one
wording, given by `Defect.message`.
-/

namespace CaptureIngest

/-- What stands where the reader of a layout text had to stop. -/
inductive Unexpected
  /-- Nothing: the text is over. -/
  | endOfLayout
  /-- Nothing more on this line. -/
  | endOfLine
  /-- The rest of the line. -/
  | text (s : String)
  deriving DecidableEq, Repr

/-- The wording of what was met. -/
def Unexpected.message : Unexpected → String
  | endOfLayout => "unexpected end of layout"
  | endOfLine => "unexpected end of line"
  | text s => "unexpected '" ++ s ++ "'"

/-- Why a layout is refused. -/
inductive Defect
  /-- There are no fields. -/
  | empty
  /-- The text stops being a layout on this line. -/
  | unreadable (line : Nat) (found : Unexpected)
  /-- A field's type is none of the primitive types. -/
  | unknownType (field typeName : String)
  /-- A field's unit is not known. -/
  | unknownMeasure (field unitText : String)
  /-- A field's name is no plain identifier. -/
  | badName (name : String)
  /-- Two fields, at these positions counted from one, have the same name. -/
  | repeatedName (name : String) (first second : Nat)
  /-- A timestamp of the capture window is not among the fields. -/
  | missingTimestamp (field : String)
  /-- A timestamp of the capture window has another type than it must have. -/
  | badTimestamp (field found : String)
  deriving DecidableEq, Repr

/-- The wording of a defect. -/
def Defect.message : Defect → String
  | empty => "layout declares no fields"
  | unreadable line found => "line " ++ Nat.repr line ++ ": " ++ found.message
  | unknownType field typeName => "field '" ++ field ++ "' has unsupported type '" ++ typeName ++ "'"
  | unknownMeasure field unitText =>
    "field '" ++ field ++ "' has unknown unit '\x7b" ++ unitText ++ "\x7d'"
  | badName name => "'" ++ name ++ "' is not a valid field name"
  | repeatedName name first second =>
    "field '" ++ name ++ "' is declared twice (positions " ++ Nat.repr first ++ " and "
      ++ Nat.repr second ++ ")"
  | missingTimestamp field => "missing required timestamp field '" ++ field ++ "'"
  | badTimestamp field found =>
    "timestamp field '" ++ field ++ "' must be a non-nullable unsigned integer, found " ++ found

end CaptureIngest
