import CaptureIngest.Layout.Defect
import CaptureIngest.Field

/-!
# Declarations

A field as a layout text writes it, before its type and its unit are looked up.
-/

namespace CaptureIngest

/-- A field as it is written. -/
structure Declaration where
  /-- The name. -/
  name : String
  /-- The text in the place of the type. -/
  typeName : String
  /-- Whether a question mark follows the type. -/
  nullable : Bool
  /-- The text between the braces, if there are braces. -/
  unitText? : Option String
  deriving DecidableEq, Repr

namespace Declaration

/-- The field that is declared. A bad type is reported before a bad unit. -/
def toField (d : Declaration) : Except Defect Field :=
  match Kind.ofName? d.typeName with
  | none => .error (.unknownType d.name d.typeName)
  | some kind =>
    match d.unitText? with
    | none => .ok ⟨d.name, kind, d.nullable, none, none⟩
    | some text =>
      match Measure.ofText? text with
      | none => .error (.unknownMeasure d.name (Text.trim text))
      | some m => .ok ⟨d.name, kind, d.nullable, some m, none⟩

/-- The fields that are declared, up to the first that cannot be. -/
def toFields : List Declaration → Except Defect (List Field)
  | [] => .ok []
  | d :: rest => do
    let f ← d.toField
    let fs ← toFields rest
    return f :: fs

end Declaration

end CaptureIngest
