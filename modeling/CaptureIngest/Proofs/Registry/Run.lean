import CaptureIngest.LayoutDirectory
import CaptureIngest.Proofs.Registry.Write

/-!
# Runs of a registry

A registry begins empty or with the built-in layouts, and is then written to in any order: fields
are offered, schemas put in, keys rejected, and directories of layout texts loaded. A run is told
by the single writes that it comes to, and those tell what the registry answers.

* `Operation.writes`: the writes that one operation comes to. A directory comes to one write for
  every text and version, up to the first file that cannot be read (`loadLayouts_eq_foldl`).
* `Run.writes`: the writes of a whole run, with those of the built-in layouts before all others.
* **Runs** (`Run.last_write_stands`): a registry that is reached answers under each key what the
  last write there calls for, and that nothing is registered where there was none. It keeps its
  schemas under their own keys, sound, and apart from the rejected ones, and an operation changes
  no answer but under the keys it writes.
-/

namespace CaptureIngest

/-! ## Directories of layout texts -/

/-- The write that a layout text comes to: its fields are offered, or the key is rejected for what
is wrong with the text. -/
def Write.ofText (key : Key) (text : String) : Write :=
  match Layout.readFields text with
  | .ok fields => .register key fields
  | .error reason => .reject key reason

namespace LayoutFile

/-- Whether there is a file that cannot be read. -/
def isUnreadable : LayoutFile → Bool
  | unreadable _ => true
  | _ => false

/-- The writes that a protocol's file comes to, one for each version. -/
def writes (p : Protocol) (versions : List Version) (encoding : Encoding) :
    LayoutFile → List Write
  | text s => versions.map fun v => .ofText ⟨p, v, encoding⟩ s
  | _ => []

/-- The writes that the loading of a directory comes to: those of the files before the first one
that cannot be read. -/
def directoryWrites (file : Protocol → LayoutFile) (versions : List Version) (encoding : Encoding)
    (protocols : List Protocol) : List Write :=
  (protocols.takeWhile fun p => !(file p).isUnreadable).flatMap fun p =>
    (file p).writes p versions encoding

variable {file : Protocol → LayoutFile} {versions : List Version} {encoding : Encoding}
  {p : Protocol} {protocols : List Protocol}

/-- A protocol without a file is passed over. -/
theorem directoryWrites_of_absent (h : file p = absent) :
    directoryWrites file versions encoding (p :: protocols) =
      directoryWrites file versions encoding protocols := by
  have hread : (!(file p).isUnreadable) = true := by rw [h]; rfl
  unfold directoryWrites
  rw [List.takeWhile_cons, if_pos hread, List.flatMap_cons, h]
  rfl

/-- A file that cannot be read ends the writes. -/
theorem directoryWrites_of_unreadable {fault : Fault} (h : file p = unreadable fault) :
    directoryWrites file versions encoding (p :: protocols) = [] := by
  have hread : ¬ (!(file p).isUnreadable) = true := by rw [h]; exact Bool.false_ne_true
  unfold directoryWrites
  rw [List.takeWhile_cons, if_neg hread]
  rfl

/-- A text is written before the rest. -/
theorem directoryWrites_of_text {s : String} (h : file p = text s) :
    directoryWrites file versions encoding (p :: protocols) =
      writes p versions encoding (text s) ++ directoryWrites file versions encoding protocols := by
  have hread : (!(file p).isUnreadable) = true := by rw [h]; rfl
  unfold directoryWrites
  rw [List.takeWhile_cons, if_pos hread, List.flatMap_cons, h]

end LayoutFile

namespace Registry

/-- To settle a key by a text is to do the write that the text comes to. -/
theorem settle_ofText (r : Registry) (key : Key) (text : String) :
    r.settle key (.ofText text) = r.write (.ofText key text) := by
  unfold Entry.ofText Write.ofText
  cases Layout.readFields text with
  | ok fields => rfl
  | error reason => rfl

/-- A text is written under the versions in order. -/
theorem loadText_eq_foldl (p : Protocol) (encoding : Encoding) (text : String) (r : Registry)
    (versions : List Version) :
    (loadText p encoding text r versions).2 =
      (LayoutFile.writes p versions encoding (.text text)).foldl write r := by
  induction versions generalizing r with
  | nil => rfl
  | cons v versions ih =>
    simp only [loadText, LayoutFile.writes, List.map_cons, List.foldl_cons]
    rw [ih, settle_ofText]
    rfl

/-- The texts of a directory are written in the order of the protocols, up to the first file that
cannot be read. -/
theorem loadLayouts_eq_foldl (file : Protocol → LayoutFile) (versions : List Version)
    (encoding : Encoding) (r : Registry) (protocols : List Protocol) :
    (loadLayouts file versions encoding r protocols).2 =
      (LayoutFile.directoryWrites file versions encoding protocols).foldl write r := by
  induction protocols generalizing r with
  | nil => rfl
  | cons p protocols ih =>
    unfold loadLayouts
    cases hfile : file p with
    | absent =>
      rw [LayoutFile.directoryWrites_of_absent hfile]
      exact ih r
    | unreadable fault =>
      rw [LayoutFile.directoryWrites_of_unreadable hfile]
      rfl
    | text s =>
      rw [LayoutFile.directoryWrites_of_text hfile, List.foldl_append, ← loadText_eq_foldl, ← ih]
      -- The registry that is left is the same whether or not the rest could be read.
      simp only
      rcases loadLayouts file versions encoding (loadText p encoding s r versions).2 protocols
        with ⟨_ | _, _⟩ <;> rfl

end Registry

/-! ## Operations -/

/-- One operation on a registry. -/
inductive Operation
  /-- Fields are offered, a schema is put in, or a key is rejected. -/
  | write (w : Write)
  /-- A directory of layout texts is loaded for some protocols and versions in one encoding. -/
  | loadLayouts (file : Protocol → LayoutFile) (versions : List Version) (encoding : Encoding)
    (protocols : List Protocol)

/-- The writes that an operation comes to. -/
def Operation.writes : Operation → List Write
  | write w => [w]
  | loadLayouts file versions encoding protocols =>
    LayoutFile.directoryWrites file versions encoding protocols

namespace Registry

/-- Performs an operation. -/
def perform (r : Registry) : Operation → Registry
  | .write w => r.write w
  | .loadLayouts file versions encoding protocols =>
    (r.loadLayouts file versions encoding protocols).2

/-- An operation does its writes in order. -/
theorem perform_eq_foldl (r : Registry) (op : Operation) :
    r.perform op = op.writes.foldl write r := by
  cases op with
  | write w => rfl
  | loadLayouts file versions encoding protocols =>
    exact loadLayouts_eq_foldl file versions encoding r protocols

/-- Operations do their writes one operation after the other. -/
theorem foldl_perform (r : Registry) (ops : List Operation) :
    ops.foldl perform r = (ops.flatMap Operation.writes).foldl write r := by
  induction ops generalizing r with
  | nil => rfl
  | cons op ops ih =>
    rw [List.foldl_cons, ih, perform_eq_foldl, List.flatMap_cons, List.foldl_append]

end Registry

/-! ## Runs -/

/-- What a registry begins as. -/
inductive Origin
  /-- Nothing is registered. -/
  | empty
  /-- The built-in layouts are. -/
  | builtin
  deriving DecidableEq, Repr

namespace Origin

/-- The registry at the beginning. -/
def registry : Origin → Registry
  | empty => .empty
  | builtin => .builtin

/-- The writes that lead from nothing to the beginning. -/
def writes : Origin → List Write
  | empty => []
  | builtin => Registry.builtinKeys.map fun key => .register key key.protocol.v30Fields

/-- The registry at the beginning is what its writes make of nothing. -/
theorem registry_eq_foldl (o : Origin) : o.registry = o.writes.foldl Registry.write .empty := by
  cases o with
  | empty => rfl
  | builtin =>
    show Registry.builtin = _
    unfold Registry.builtin writes
    rw [List.foldl_map]
    rfl

end Origin

/-- Layouts are built in for one version only. -/
theorem Registry.find_builtin_of_version_ne {key : Key} (h : key.version ≠ .v30) :
    builtin.find key = .error (.notRegistered key) := by
  have huntouched : ∀ w ∈ Origin.builtin.writes, w.key ≠ key := by
    intro w hw
    obtain ⟨k, hk, rfl⟩ := List.mem_map.mp hw
    obtain ⟨p, -, hp⟩ := List.mem_flatMap.mp hk
    obtain ⟨e, -, rfl⟩ := List.mem_map.mp hp
    rintro rfl
    exact h rfl
  have hbuiltin : builtin = Origin.builtin.writes.foldl write .empty := Origin.builtin.registry_eq_foldl
  rw [hbuiltin, find_foldl_write_of_untouched _ huntouched, find_empty]

/-- A finite sequence of operations from one of the beginnings. -/
structure Run where
  /-- Where it begins. -/
  origin : Origin
  /-- The operations in their order. -/
  operations : List Operation

namespace Run

/-- The registry that a run reaches. -/
def registry (run : Run) : Registry :=
  run.operations.foldl Registry.perform run.origin.registry

/-- The writes that a run comes to. -/
def writes (run : Run) : List Write :=
  run.origin.writes ++ run.operations.flatMap Operation.writes

/-- A run reaches what its writes make of nothing. -/
theorem registry_eq_foldl (run : Run) :
    run.registry = run.writes.foldl Registry.write .empty := by
  unfold registry writes
  rw [Registry.foldl_perform, Origin.registry_eq_foldl, List.foldl_append]

/-- What a run reaches is well-formed. -/
theorem wellFormed_registry (run : Run) : run.registry.WellFormed := by
  rw [registry_eq_foldl]
  exact Registry.wellFormed_empty.foldl_write run.writes

/-- **The last write stands.** Whatever is done to a registry in whatever order, it answers under
each key what the last write there calls for, and nothing else decides the answer. -/
theorem last_write_stands (run : Run) :
    run.registry = run.writes.foldl Registry.write .empty ∧
    (∀ before w after, run.writes = before ++ w :: after →
      (∀ later ∈ after, later.key ≠ w.key) → w.Answers (run.registry.find w.key)) ∧
    (∀ key, (∀ w ∈ run.writes, w.key ≠ key) →
      run.registry.find key = .error (.notRegistered key)) ∧
    (∀ key : Key, ¬ (key ∈ run.registry.schemas ∧ key ∈ run.registry.refusals)) ∧
    (∀ (key : Key) (schema : Schema), run.registry.schemas[key]? = some schema →
      schema.key = key ∧ Layout.check schema.fields = .ok ()) ∧
    ∀ (op : Operation) (key : Key), (∀ w ∈ op.writes, w.key ≠ key) →
      (run.registry.perform op).find key = run.registry.find key := by
  have hrun := run.registry_eq_foldl
  have hformed := run.wellFormed_registry
  refine ⟨hrun, ?_, ?_, hformed.apart, ?_, ?_⟩
  · intro before w after hwrites hlast
    rw [hrun, hwrites]
    exact Registry.find_foldl_write _ before w hlast
  · intro key huntouched
    rw [hrun, Registry.find_foldl_write_of_untouched _ huntouched]
    exact Registry.find_empty key
  · intro key schema hschema
    exact ⟨hformed.keyed key schema hschema, schema.layout.check_fields⟩
  · intro op key huntouched
    rw [Registry.perform_eq_foldl]
    exact Registry.find_foldl_write_of_untouched _ huntouched

end Run

end CaptureIngest
