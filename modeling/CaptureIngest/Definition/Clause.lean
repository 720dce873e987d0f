import CaptureIngest.Definition.Expression
import CaptureIngest.Source

/-!
# Clauses

The part of a definition that names its source. In the resolved style all values of the source
are literals; in the parameterized style those that may change between deployments are left to
the program's parameters. `Clause.ofSource` chooses the expressions, `Clause.lines` writes them,
and `Clause.eval?` tells what a clause means under given parameter values.
-/

namespace CaptureIngest

/-- How definitions carry the options of their source. -/
inductive Style
  /-- As literals. -/
  | resolved
  /-- As references to parameters of the program. -/
  | parameterized
  deriving DecidableEq, Repr, Inhabited

/-- Whether files are deleted once they are read. -/
inductive Deletion
  | never
  | always
  /-- As a parameter decides. -/
  | asParameter (p : Parameter)
  deriving DecidableEq, Repr

/-- The source of a definition, as it is written. -/
inductive Clause
  /-- Capture files: the paths, a command that each file goes through, and the deletion. -/
  | files (glob : TextExpr) (preprocessor : Option TextExpr) (deletion : Deletion)
  /-- A topic: its name, the brokers, and the fetch limit. -/
  | topic (name : String) (broker : TextExpr) (fetchLimit : Option TextExpr)
  deriving DecidableEq, Repr

namespace Clause

/-- The clause of a source in a style. -/
def ofSource (style : Style) (encoding : Encoding) : Source → Clause
  | .files s =>
    match style with
    | .resolved =>
      files (.literal s.glob) (s.preprocessor?.map .literal) (if s.delete then .always else .never)
    | .parameterized =>
      files
        (.append (.append (.parameter (.pathPrefix encoding)) (.literal s.pattern))
          (.ifThenElse (.compressed encoding) (.literal compressedSuffix) (.literal "")))
        (some (.ifThenElse (.compressed encoding) (.literal decompressor) (.literal "")))
        (.asParameter (.delete encoding))
  | .topic s =>
    match style with
    | .resolved =>
      topic s.topic (.literal s.broker) (s.fetchLimit.map fun n => .literal (Nat.repr n.toNat))
    | .parameterized =>
      topic s.topic (.parameter .brokerList) (s.fetchLimit.map fun _ => .parameter .maxMessageSize)

/-! ## Writing -/

/-- The lines of a command, if there is one. -/
def preprocessorLines : Option TextExpr → List String
  | none => []
  | some e => ["      PREPROCESSED WITH " ++ e.render]

/-- The lines of a deletion. -/
def deletionLines : Deletion → List String
  | .never => []
  | .always => ["      THEN DELETE"]
  | .asParameter p => ["      THEN DELETE IF " ++ p.name]

/-- The lines of the options of a topic. -/
def optionLines (broker : TextExpr) : Option TextExpr → List String
  | none => ["      \"metadata.broker.list\" = " ++ broker.render]
  | some limit =>
    ["      \"metadata.broker.list\" = " ++ broker.render ++ ",",
     "      \"max.partition.fetch.bytes\" = " ++ limit.render]

/-- The lines of a clause. -/
def lines : Clause → List String
  | files glob preprocessor deletion =>
    ["    FILES " ++ glob.render] ++ preprocessorLines preprocessor ++ deletionLines deletion
  | topic name broker fetchLimit =>
    ["    KAFKA TOPIC " ++ Text.quoteString name, "    WITH OPTIONS"] ++ optionLines broker fetchLimit

/-! ## Meaning -/

/-- What a clause makes the engine read. -/
inductive Meaning
  /-- The files on these paths, through this command if one is given, deleted or kept. -/
  | files (glob : String) (preprocessor : Option String) (delete : Bool)
  /-- The topic of this name, from these brokers, with this fetch limit if one is given. -/
  | topic (name broker : String) (fetchLimit : Option String)
  deriving DecidableEq, Repr

/-- The empty command is no command. -/
def commandOfText (s : String) : Option String :=
  if s.isEmpty then none else some s

/-- The decision about deletion. -/
def evalDeletion (values : ParameterValues) : Deletion → Option Bool
  | .never => some false
  | .always => some true
  | .asParameter p => (values p).bind (·.flag?)

/-- The value of an optional expression. -/
def evalOptional (values : ParameterValues) : Option TextExpr → Option (Option String)
  | none => some none
  | some e => (e.eval values).map some

/-- The meaning of a clause, if every parameter it needs has a fitting value. -/
def eval? (values : ParameterValues) : Clause → Option Meaning
  | files glob preprocessor deletion => do
    let glob ← glob.eval values
    let command ← evalOptional values preprocessor
    let delete ← evalDeletion values deletion
    return .files glob (command.bind commandOfText) delete
  | topic name broker fetchLimit => do
    let broker ← broker.eval values
    let limit ← evalOptional values fetchLimit
    return .topic name broker limit

/-- The parameters of an optional expression. -/
def optionalParameters : Option TextExpr → List Parameter
  | none => []
  | some e => e.parameters

/-- The parameters that a clause refers to. -/
def parameters : Clause → List Parameter
  | files glob preprocessor deletion =>
    glob.parameters ++ optionalParameters preprocessor ++
      match deletion with
      | .asParameter p => [p]
      | _ => []
  | topic _ broker fetchLimit => broker.parameters ++ optionalParameters fetchLimit

end Clause

end CaptureIngest
