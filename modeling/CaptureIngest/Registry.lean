import CaptureIngest.Layout.V30
import CaptureIngest.Log

/-!
# The registry of layouts

A registry keeps two things apart: the schemas that were loaded and the reasons why layouts were
refused. Keys are independent of each other, so versions and encodings live side by side and a bad
layout harms no other. Whatever is written under a key takes away what the other side has there,
and what is written last stands: `find_load` and `find_reject` say so.
-/

namespace CaptureIngest

/-- What a layout that was offered is worth. -/
inductive Entry
  /-- It passed the check. -/
  | loaded (layout : Layout)
  /-- It has a defect. -/
  | rejected (reason : Defect)
  deriving DecidableEq

namespace Entry

/-- The entry that a list of fields earns. -/
def ofFields (fields : List Field) : Entry :=
  match Layout.ofFields fields with
  | .ok layout => loaded layout
  | .error reason => rejected reason

/-- Whether an entry holds a layout. -/
def isLoaded : Entry → Bool
  | loaded _ => true
  | rejected _ => false

/-- What is noted when a key is settled by an entry. -/
def event (key : Key) : Entry → Event
  | loaded layout => .schemaRegistered key layout.fields.length
  | rejected reason => .schemaRejected key reason

end Entry

/-- What is known about each key. -/
structure Registry where
  /-- The schemas that were loaded, in the order of their keys. -/
  schemas : Std.TreeMap Key Schema
  /-- Why the other layouts were refused, in the order of their keys. -/
  refusals : Std.TreeMap Key Defect

namespace Registry

/-- The registry that knows nothing. -/
def empty : Registry := ⟨∅, ∅⟩

instance : Inhabited Registry := ⟨empty⟩

/-! ## Writing -/

/-- Keeps a layout that passed the check, and forgets why one was refused. -/
def load (r : Registry) (key : Key) (layout : Layout) : Registry :=
  ⟨r.schemas.insert key ⟨key, layout⟩, r.refusals.erase key⟩

/-- Keeps the reason why there is no layout, and forgets the one there was. -/
def reject (r : Registry) (key : Key) (reason : Defect) : Registry :=
  ⟨r.schemas.erase key, r.refusals.insert key reason⟩

/-- Keeps what a layout is worth. -/
def settle (r : Registry) (key : Key) : Entry → Registry
  | .loaded layout => r.load key layout
  | .rejected reason => r.reject key reason

/-- Checks a list of fields and keeps the layout, or else the reason. -/
def register (r : Registry) (key : Key) (fields : List Field) : Registry :=
  r.settle key (.ofFields fields)

/-! ## Reading -/

/-- The schema under a key, or why there is none. -/
def find (r : Registry) (key : Key) : Except Failure Schema :=
  match r.schemas[key]? with
  | some schema => .ok schema
  | none =>
    match r.refusals[key]? with
    | some reason => .error (.rejected key reason)
    | none => .error (.notRegistered key)

/-- The keys that have a layout, in order. -/
def keys (r : Registry) : List Key :=
  r.schemas.keys

/-- The keys whose layout was refused, with the reason, in order. -/
def rejections (r : Registry) : List (Key × Defect) :=
  r.refusals.toList

/-- The number of layouts. -/
def size (r : Registry) : Nat :=
  r.schemas.size

/-- The versions of which a protocol has a layout in one encoding or the other, in order. -/
def versions (r : Registry) (p : Protocol) : List Version :=
  ((r.keys.filter fun k => k.protocol == p).map (·.version)).eraseReps

/-- Nothing is registered to begin with. -/
@[simp]
theorem find_empty (key : Key) : empty.find key = .error (.notRegistered key) := by
  simp [find, empty]

/-- A key that is loaded has its layout, whatever stood there; other keys answer as before. -/
theorem find_load (r : Registry) (key k : Key) (layout : Layout) :
    (r.load key layout).find k = if key = k then .ok ⟨key, layout⟩ else r.find k := by
  simp only [find, load, Std.TreeMap.getElem?_insert, Std.TreeMap.getElem?_erase,
    Std.LawfulEqCmp.compare_eq_iff_eq]
  by_cases h : key = k
  · subst h
    simp only [if_true]
  · simp only [if_neg h]

/-- A key that is rejected has the reason, whatever stood there; other keys answer as before. -/
theorem find_reject (r : Registry) (key k : Key) (reason : Defect) :
    (r.reject key reason).find k =
      if key = k then .error (.rejected key reason) else r.find k := by
  simp only [find, reject, Std.TreeMap.getElem?_insert, Std.TreeMap.getElem?_erase,
    Std.LawfulEqCmp.compare_eq_iff_eq]
  by_cases h : key = k
  · subst h
    simp only [if_true]
  · simp only [if_neg h]

/-! ## What is built in -/

/-- The keys of the built-in layouts. -/
def builtinKeys : List Key :=
  Protocol.all.flatMap fun p => Encoding.all.map fun e => ⟨p, .v30, e⟩

/-- The registry with the v30 layouts of all protocols in both encodings. -/
def builtin : Registry :=
  builtinKeys.foldl (fun r key => r.register key key.protocol.v30Fields) empty

/-- What is noted when the built-in layouts are registered. -/
def builtinEvents : List Event :=
  builtinKeys.map (fun key => (Entry.ofFields key.protocol.v30Fields).event key) ++
    [.builtinLoaded builtin.size builtin.rejections.length]

end Registry

end CaptureIngest
