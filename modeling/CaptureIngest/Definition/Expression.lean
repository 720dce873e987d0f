import CaptureIngest.Encoding
import CaptureIngest.Text.Quoted

/-!
# Parameters and text expressions

A definition writes a value of its source either as a literal or as an expression over the
parameters of its program, which may be set anew when the program is deployed. There are three
parameters for the capture files of each encoding and two for topics. `TextExpr.eval` gives the
text that an expression stands for under given parameter values.
-/

namespace CaptureIngest

/-- A parameter of a program. -/
inductive Parameter
  /-- What stands before the pattern of capture files. -/
  | pathPrefix (encoding : Encoding)
  /-- Whether capture files are compressed. -/
  | compressed (encoding : Encoding)
  /-- Whether capture files are deleted once they are read. -/
  | delete (encoding : Encoding)
  /-- The brokers of topics. -/
  | brokerList
  /-- The fetch limit of topics. -/
  | maxMessageSize
  deriving DecidableEq, Repr

namespace Parameter

/-- What the names of an encoding's file parameters begin with. -/
def filesStem : Encoding → String
  | .csv => "csv_"
  | .rowBinary => "files_"

/-- The name of a parameter in a program. -/
def name : Parameter → String
  | pathPrefix e => filesStem e ++ "prefix"
  | compressed e => filesStem e ++ "compressed"
  | delete e => filesStem e ++ "delete"
  | brokerList => "kafka_broker_list"
  | maxMessageSize => "kafka_max_msg_size"

/-- Every parameter. -/
def all : List Parameter :=
  (Encoding.all.flatMap fun e => [pathPrefix e, compressed e, delete e])
    ++ [brokerList, maxMessageSize]

theorem mem_all (p : Parameter) : p ∈ all := by
  rcases p with e | e | e | _ | _ <;> first | (cases e <;> decide) | decide

/-- Two parameters do not share a name. -/
theorem name_injective {p q : Parameter} (h : p.name = q.name) : p = q := by
  have table : ∀ p ∈ all, ∀ q ∈ all, p.name = q.name → p = q := by decide
  exact table p p.mem_all q q.mem_all h

end Parameter

/-- The value of a parameter. -/
inductive ParameterValue
  /-- A text. -/
  | text (s : String)
  /-- A truth value. -/
  | flag (b : Bool)
  deriving DecidableEq, Repr

namespace ParameterValue

/-- A value as the program declares it. -/
def render : ParameterValue → String
  | text s => Text.quoteString s
  | flag true => "true"
  | flag false => "false"

/-- The text of a value, if it is one. -/
def text? : ParameterValue → Option String
  | text s => some s
  | flag _ => none

/-- The truth value of a value, if it is one. -/
def flag? : ParameterValue → Option Bool
  | text _ => none
  | flag b => some b

end ParameterValue

/-- What each parameter is set to. -/
abbrev ParameterValues := Parameter → Option ParameterValue

/-- An expression for a text. -/
inductive TextExpr
  /-- The text itself. -/
  | literal (s : String)
  /-- The value of a parameter. -/
  | parameter (p : Parameter)
  /-- One text after the other. -/
  | append (a b : TextExpr)
  /-- One of two texts, as a parameter decides. -/
  | ifThenElse (p : Parameter) (yes no : TextExpr)
  deriving DecidableEq, Repr

namespace TextExpr

/-- An expression as a definition writes it. -/
def render : TextExpr → String
  | literal s => Text.quoteString s
  | parameter p => p.name
  | append a b => a.render ++ " || " ++ b.render
  | ifThenElse p yes no => "(IF " ++ p.name ++ " THEN " ++ yes.render ++ " ELSE " ++ no.render ++ ")"

/-- The text that an expression stands for, if every parameter it needs has a fitting value. -/
def eval (values : ParameterValues) : TextExpr → Option String
  | literal s => some s
  | parameter p => (values p).bind (·.text?)
  | append a b => do
    let s ← a.eval values
    let t ← b.eval values
    return s ++ t
  | ifThenElse p yes no => do
    let b ← (values p).bind (·.flag?)
    if b then yes.eval values else no.eval values

/-- The parameters that an expression refers to. -/
def parameters : TextExpr → List Parameter
  | literal _ => []
  | parameter p => [p]
  | append a b => a.parameters ++ b.parameters
  | ifThenElse p yes no => p :: yes.parameters ++ no.parameters

end TextExpr

end CaptureIngest
