import CaptureIngest.Failure
import CaptureIngest.Field
import CaptureIngest.Text.Quoted

/-!
# Layouts and schemas

A layout is the ordered list of a record's fields. The order is part of the format: to change it
breaks every capture on disk. A list of fields is used as a layout only if it passes `check`:
names are plain identifiers and occur once, and both ends of the capture window are there as
unsigned integers that are never missing. A schema is a layout under its key.

`check` names the first defect: names are checked from the first field to the last, and after
all names the two timestamps.
-/

namespace CaptureIngest

namespace Layout

/-- The field that holds the time at which a capture begins. -/
def captureBegin : String := "capture_begin"

/-- The field that holds the time at which a capture ends. -/
def captureEnd : String := "capture_end"

/-! ## Names -/

/-- The first field whose name is bad or repeats one of the names before it. -/
def nameDefect? (earlier : List String) : List Field → Option Defect
  | [] => none
  | f :: rest =>
    if Text.isPlainIdentifier f.name = false then some (.badName f.name)
    else
      match earlier.idxOf? f.name with
      | some i => some (.repeatedName f.name (i + 1) (earlier.length + 1))
      | none => nameDefect? (earlier ++ [f.name]) rest

/-! ## Timestamps -/

/-- Whether a field can hold an end of the capture window. -/
def isTimestamp (f : Field) : Bool :=
  !f.nullable && f.kind.isUnsigned

/-- What is wrong with a timestamp, if anything is. -/
def timestampDefect? (name : String) (fields : List Field) : Option Defect :=
  match fields.find? (fun f => f.name == name) with
  | none => some (.missingTimestamp name)
  | some f => if isTimestamp f then none else some (.badTimestamp name f.typeText)

/-! ## The check -/

/-- The first defect of a list of fields, if it has one. -/
def defect? (fields : List Field) : Option Defect :=
  if fields.isEmpty then some .empty
  else (nameDefect? [] fields).or
    ((timestampDefect? captureBegin fields).or (timestampDefect? captureEnd fields))

/-- Accepts a list of fields as a layout, or says what is wrong with it. -/
def check (fields : List Field) : Except Defect Unit :=
  match defect? fields with
  | none => .ok ()
  | some d => .error d

end Layout

/-- An ordered list of fields that is fit for records. -/
structure Layout where
  /-- The fields in their order. -/
  fields : List Field
  /-- They have no defect. -/
  sound : Layout.defect? fields = none
  deriving DecidableEq

namespace Layout

/-- The layout of these fields. -/
def ofFields (fields : List Field) : Except Defect Layout :=
  match h : defect? fields with
  | none => .ok ⟨fields, h⟩
  | some d => .error d

/-- The fields of a layout make this layout. -/
theorem ofFields_fields (l : Layout) : ofFields l.fields = .ok l := by
  unfold ofFields
  split
  · rfl
  · next d h => simp [l.sound] at h

/-- Fields make no layout iff they have a defect, which is then the reason. -/
theorem ofFields_eq_error_iff {fields : List Field} {d : Defect} :
    ofFields fields = .error d ↔ defect? fields = some d := by
  unfold ofFields
  split <;> simp_all

/-- A layout is made of its own fields only. -/
theorem ofFields_eq_ok_iff {fields : List Field} {l : Layout} :
    ofFields fields = .ok l ↔ l.fields = fields := by
  constructor
  · intro h
    unfold ofFields at h
    split at h
    · injection h with h
      rw [← h]
    · simp at h
  · rintro rfl
    exact ofFields_fields l

/-- The field of this name. -/
def field? (l : Layout) (name : String) : Option Field :=
  l.fields.find? fun f => f.name == name

/-- The position of the field of this name, counted from zero. -/
def position? (l : Layout) (name : String) : Option Nat :=
  l.fields.findIdx? fun f => f.name == name

end Layout

/-- A layout under its key. -/
structure Schema where
  /-- Whose layout it is. -/
  key : Key
  /-- The layout. -/
  layout : Layout
  deriving DecidableEq

namespace Schema

/-- The fields in their order. -/
def fields (s : Schema) : List Field :=
  s.layout.fields

/-- The schema of these fields under a key. -/
def ofFields (key : Key) (fields : List Field) : Except Failure Schema :=
  match Layout.ofFields fields with
  | .ok layout => .ok ⟨key, layout⟩
  | .error reason => .error (.rejected key reason)

/-- The name of the definition that reads the schema's records. -/
def definitionName (s : Schema) : String :=
  s.key.protocol.definitionName s.key.encoding

end Schema

end CaptureIngest
