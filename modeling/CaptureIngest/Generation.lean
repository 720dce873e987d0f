import CaptureIngest.Plan
import CaptureIngest.Program
import CaptureIngest.Registry

/-!
# Generation

A plan asks for one definition for each of its versions and protocols, versions first. A pair
without a layout is skipped and reported, and the others are generated all the same. Two
definitions of one name fail the whole batch.
-/

namespace CaptureIngest

/-- A pair that was asked for and not generated. -/
structure Skipped where
  /-- The key that has no layout. -/
  key : Key
  /-- Why it has none. -/
  reason : Failure
  deriving DecidableEq, Repr

/-- What is noted when a pair is skipped. -/
def Skipped.event (s : Skipped) : Event :=
  .pairSkipped s.key s.reason

/-- What a generation gave. -/
structure Generation where
  /-- The definitions, in the order of the plan. -/
  definitions : List Definition
  /-- The pairs without a layout, in the order of the plan. -/
  skipped : List Skipped
  deriving DecidableEq

namespace Generation

/-- Whether every pair was generated. -/
def isComplete (g : Generation) : Bool :=
  g.skipped.isEmpty

/-- The number of pairs that were asked for. -/
def requested (g : Generation) : Nat :=
  g.skipped.length + g.definitions.length

end Generation

namespace Plan

/-- The keys that a plan asks for, in order. -/
def keys (p : Plan) : List Key :=
  p.versions.flatMap fun v => p.protocols.map fun q => ⟨q, v, p.encoding⟩

/-- The schemas that are there for some keys, each with its source. -/
def found (p : Plan) (r : Registry) (keys : List Key) : List (Schema × Source) :=
  keys.filterMap fun k =>
    match r.find k with
    | .ok schema => some (schema, .bind p.transport k p.options)
    | .error _ => none

/-- The keys without a schema. -/
def missing (r : Registry) (keys : List Key) : List Skipped :=
  keys.filterMap fun k =>
    match r.find k with
    | .ok _ => none
    | .error reason => some ⟨k, reason⟩

/-- Generates what a plan asks for from what a registry has. -/
def generate (p : Plan) (r : Registry) : Except Failure Generation := do
  let definitions ← Definition.batch p.style (p.found r p.keys)
  return ⟨definitions, missing r p.keys⟩

/-- What is noted when all definitions of a plan are there. -/
def event (p : Plan) (g : Generation) : Event :=
  .generated g.definitions.length g.skipped.length p.transport p.encoding

end Plan

end CaptureIngest
