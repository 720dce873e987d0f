import CaptureIngest.Definition

/-!
# Programs

A program is a header, a section that declares the parameters its definitions refer to, and the
definitions, with an empty line between sections. The values that the parameters are declared
with come from the first capture files of each encoding and from the first topic.
-/

namespace CaptureIngest

/-- A parameter with the value that a program declares it with. -/
structure Declared where
  /-- The parameter. -/
  parameter : Parameter
  /-- Its value, unless another is set when the program is deployed. -/
  value : ParameterValue
  deriving DecidableEq, Repr

namespace Program

/-- The line that every program begins with. -/
def header : String := "-- vim: ft=sql expandtab"

/-! ## Parameters -/

/-- The parameters that the capture files of an encoding need. -/
def fileParameters (encoding : Encoding) (source : FileSource) : List Declared :=
  [⟨.pathPrefix encoding, .text source.pathPrefix⟩,
   ⟨.compressed encoding, .flag source.compressed⟩,
   ⟨.delete encoding, .flag source.delete⟩]

/-- The parameters that a topic needs. -/
def topicParameters (source : TopicSource) : List Declared :=
  ⟨.brokerList, .text source.broker⟩ ::
    match source.fetchLimit with
    | none => []
    | some n => [⟨.maxMessageSize, .text (Nat.repr n.toNat)⟩]

/-- The first capture files of an encoding. -/
def firstFiles? (encoding : Encoding) (definitions : List Definition) : Option FileSource :=
  definitions.findSome? fun d => if d.key.encoding = encoding then d.source.files? else none

/-- The first topic. -/
def firstTopic? (definitions : List Definition) : Option TopicSource :=
  definitions.findSome? fun d => d.source.topic?

/-- The parameters of an optional source. -/
def ofFirst {α : Type} (declare : α → List Declared) : Option α → List Declared
  | none => []
  | some source => declare source

/-- The parameters that a program declares, in order. -/
def parameters (definitions : List Definition) : List Declared :=
  (Encoding.all.flatMap fun e => ofFirst (fileParameters e) (firstFiles? e definitions))
    ++ ofFirst topicParameters (firstTopic? definitions)

/-- The values that declarations give to parameters. -/
def values (declared : List Declared) : ParameterValues :=
  fun p => (declared.find? fun d => d.parameter == p).map (·.value)

/-! ## Text -/

/-- A declaration as it is written. -/
def declarationText (d : Declared) : String :=
  d.parameter.name ++ " DEFAULTS TO " ++ d.value.render

/-- The section that declares parameters, if there are any. -/
def parameterSection? (definitions : List Definition) : Option String :=
  match parameters definitions with
  | [] => none
  | ds => some ("PARAMETERS\n  " ++ ",\n  ".intercalate (ds.map declarationText) ++ ";")

/-- The sections of a program. Only the parameterized style declares parameters. -/
def sections (style : Style) (definitions : List Definition) : List String :=
  header ::
    ((match style with
      | .resolved => []
      | .parameterized => (parameterSection? definitions).toList)
      ++ definitions.map (·.text))

/-- The text of a program. -/
def text (style : Style) (definitions : List Definition) : String :=
  "\n\n".intercalate (sections style definitions) ++ "\n"

end Program

end CaptureIngest
