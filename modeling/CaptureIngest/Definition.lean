import CaptureIngest.Definition.Clause
import CaptureIngest.Definition.FieldList

/-!
# Definitions

A definition tells the engine how to read the records of one schema from one source:

    DEFINE LAZY tcp AS
      READ FROM
        FILES "/data/tcp_v30.*csv"
          THEN DELETE
        AS CSV
          SEPARATOR "\t"
          NULL "\\N"
          NO QUOTES
          ESCAPE WITH "\\"
        (poller string,                     -- 1
         capture_begin u64,
         capture_end u64)
      EVENT STARTING AT capture_begin * 1e-6
        AND STOPPING AT capture_end * 1e-6;

Its text is a function of the schema, the source and the style alone. Definitions of one batch
must differ in name; `batch` checks that.
-/

namespace CaptureIngest

/-- How the records of one schema are read from one source. -/
structure Definition where
  /-- What the records are. -/
  schema : Schema
  /-- Where they are read. -/
  source : Source
  /-- How the source is written. -/
  style : Style
  deriving DecidableEq

namespace Definition

/-- The key of the schema. -/
def key (d : Definition) : Key :=
  d.schema.key

/-- The name of the definition, without quotes. -/
def name (d : Definition) : String :=
  d.schema.definitionName

/-- The source as it is written. -/
def clause (d : Definition) : Clause :=
  .ofSource d.style d.key.encoding d.source

/-! ## Text -/

/-- The lines that say how a record is decoded. -/
def encodingLines : Encoding → List String
  | .csv =>
    ["    AS CSV", "      SEPARATOR \"\\t\"", "      NULL \"\\\\N\"", "      NO QUOTES",
     "      ESCAPE WITH \"\\\\\""]
  | .rowBinary => ["    AS ROWBINARY"]

/-- The lines of the window that a record covers; the engine counts in seconds, records in
microseconds. -/
def windowLines : List String :=
  ["EVENT STARTING AT " ++ Layout.captureBegin ++ " * 1e-6",
   "  AND STOPPING AT " ++ Layout.captureEnd ++ " * 1e-6"]

/-- The lines that begin a definition. -/
def headLines (name : String) : List String :=
  ["DEFINE LAZY " ++ Text.quoteIdentifier name ++ " AS", "  READ FROM"]

/-- The lines of a definition, without the semicolon at the end. -/
def lines (d : Definition) : List String :=
  headLines d.name ++ d.clause.lines ++ encodingLines d.key.encoding
    ++ FieldList.lines d.schema.fields ++ windowLines.map ("  " ++ ·)

/-- The text of a definition. -/
def text (d : Definition) : String :=
  Text.joinLines d.lines ++ ";"

/-! ## Batches -/

/-- Whether every definition has a name that none before it has. -/
def checkNames (earlier : List Definition) : List Definition → Except Failure Unit
  | [] => .ok ()
  | d :: rest =>
    match earlier.find? fun e => e.name == d.name with
    | some first => .error (.sharedName d.name first.key d.key)
    | none => checkNames (earlier ++ [d]) rest

/-- The definitions of a batch of schemas and sources, all in one style. -/
def batch (style : Style) (items : List (Schema × Source)) : Except Failure (List Definition) := do
  let definitions := items.map fun (schema, source) => ⟨schema, source, style⟩
  checkNames [] definitions
  return definitions

end Definition

end CaptureIngest
