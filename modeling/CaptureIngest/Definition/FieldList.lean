import CaptureIngest.Layout
import CaptureIngest.Text.Lines

/-!
# Field lists

A definition lists the fields of its records one a line, in parentheses and with commas between
them. The first field and every tenth carry their position in a comment, which begins at a common
column, or one space behind a line that reaches that column.
-/

namespace CaptureIngest.FieldList

/-- The column at which comments begin, counted from zero. -/
def commentColumn : Nat := 40

/-- A position, counted from one, is written behind the first field and behind every tenth. -/
def isNumbered (position : Nat) : Bool :=
  position == 1 || position % 10 == 0

/-- The comment behind a line: spaces up to the comment column, at least one, and the position. -/
def comment (line : String) (position : Nat) : String :=
  if isNumbered position then
    Text.spaces (max 1 (commentColumn - line.length)) ++ "-- " ++ Nat.repr position
  else ""

/-- The line of the field at a position, without its comment. -/
def bareLine (position : Nat) (isLast : Bool) (f : Field) : String :=
  (if position = 1 then "    (" else "     ") ++ f.render ++ if isLast then ")" else ","

/-- The line of the field at a position. -/
def line (position : Nat) (isLast : Bool) (f : Field) : String :=
  let bare := bareLine position isLast f
  bare ++ comment bare position

/-- The lines of the fields from a position on. -/
def linesFrom (position : Nat) : List Field → List String
  | [] => []
  | f :: rest => line position rest.isEmpty f :: linesFrom (position + 1) rest

/-- The lines of a field list. -/
def lines (fields : List Field) : List String :=
  linesFrom 1 fields

@[simp]
theorem linesFrom_nil (position : Nat) : linesFrom position [] = [] := rfl

@[simp]
theorem linesFrom_cons (position : Nat) (f : Field) (rest : List Field) :
    linesFrom position (f :: rest) =
      line position rest.isEmpty f :: linesFrom (position + 1) rest := rfl

/-- There is one line for each field. -/
theorem length_linesFrom (position : Nat) (fields : List Field) :
    (linesFrom position fields).length = fields.length := by
  induction fields generalizing position with
  | nil => rfl
  | cons f rest ih => simp [ih]

/-- A list of fields has as many lines as fields. -/
theorem length_lines (fields : List Field) : (lines fields).length = fields.length :=
  length_linesFrom 1 fields

end CaptureIngest.FieldList
