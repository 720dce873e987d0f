import CaptureIngest.Proofs.Registry.Directory
import CaptureIngest.Session

/-!
# What a session warns of

A session notes much, and warns of two things only: of a layout that is refused, and of a pair that has no
layout. So its warnings can be told from the layout files and from the keys of its plan.

* `LayoutFile.refusals`, `Plan.refusals`: the warnings about the layout files that a plan calls for.
* **Files** (`LayoutFile.warnings_events`): a directory that is loaded is warned of for each key under
  which a text with a defect is loaded, and for nothing else.
-/

namespace CaptureIngest

namespace LayoutFile

/-- The warnings about the layout file of a protocol: one for each version under which its text is
loaded, if the text has a defect. -/
def refusals (p : Protocol) (versions : List Version) (e : Encoding) : LayoutFile → List Event
  | text s =>
    match Entry.ofText s with
    | .rejected reason => versions.map fun v => .schemaRejected ⟨p, v, e⟩ reason
    | .loaded _ => []
  | _ => []

/-- A text that is loaded is warned of under each version, if it has a defect. -/
theorem warnings_textEvents (directory : String) (p : Protocol) (e : Encoding) (s : String)
    (versions : List Version) :
    Event.warnings (textEvents directory p e s versions) = (text s).refusals p versions e := by
  simp only [textEvents, refusals, Event.warnings, List.filter_flatMap]
  cases Entry.ofText s with
  | loaded layout =>
    show (versions.flatMap fun _ => []) = []
    rw [List.flatMap_eq_nil_iff]
    exact fun _ _ => rfl
  | rejected reason =>
    exact (List.map_eq_flatMap ..).symm

/-- **Files**: where every file can be read, the warnings about a directory are those about its files. -/
theorem warnings_events (directory : String) {file : Protocol → LayoutFile} (versions : List Version)
    (e : Encoding) {protocols : List Protocol}
    (h : ∀ p ∈ protocols, (file p).isUnreadable = false) :
    Event.warnings (events directory file versions e protocols) =
      protocols.flatMap fun p => (file p).refusals p versions e := by
  induction protocols with
  | nil => rfl
  | cons p protocols ih =>
    rw [List.forall_mem_cons] at h
    rw [List.flatMap_cons, ← ih h.2, events]
    rcases cases_of_readable h.1 with habsent | ⟨s, htext⟩
    · rw [habsent]
      rfl
    · rw [htext, ← warnings_textEvents directory]
      exact Event.warnings_append ..

end LayoutFile

namespace Plan

/-- What the directory of a plan holds for a protocol. -/
def layoutFile (plan : Plan) (t : Tree) (p : Protocol) : LayoutFile :=
  match plan.layouts with
  | none => .absent
  | some directory => t.layoutOf directory plan.encoding p

/-- The warnings about the layout files that a plan calls for. -/
def refusals (plan : Plan) (t : Tree) : List Event :=
  plan.protocols.flatMap fun p => (plan.layoutFile t p).refusals p plan.versions plan.encoding

/-- Without a directory there is nothing to warn of. -/
theorem refusals_of_layouts_eq_none {plan : Plan} (h : plan.layouts = none) (t : Tree) :
    plan.refusals t = [] := by
  simp [refusals, layoutFile, h, LayoutFile.refusals]

end Plan

end CaptureIngest
