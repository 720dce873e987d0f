import CaptureIngest.Proofs.Registry.Slot
import CaptureIngest.Proofs.Steps
import CaptureIngest.Storage.Tree

/-!
# What a directory of layout texts changes

A directory in a tree of files is loaded into a registry. Nothing but the files of the protocols that
are listed plays a part in that, and nothing but the keys of these protocols is touched.

* `Tree.content? t path`: what the file under a path holds, if there is a file. Both operations on
  files that the loading makes are told by it (`isFile_eq`, `readText_of_content?`).
* `Tree.layoutOf t directory e p`: what a directory holds for a protocol.
* **Reading** (`Registry.run_loadDirectory`): a directory is loaded as the files that it holds for the
  protocols, and the tree stays as it is.
* **Two outcomes** (`Registry.run_loadDirectory_of_readable`,
  `Registry.run_loadDirectory_of_unreadable`): if every file is a text or is not there the loading
  succeeds, and each slot is told by its file; otherwise it ends at the first file that is no text.
* **Directories** (`Registry.loadDirectory_exact`): which keys are touched, what they answer, how much
  is counted, and what is left where a file is no text.
-/

namespace CaptureIngest

/-! ## Files in a tree -/

/-- What is read from a file: the text, if it holds one. -/
def Content.asText : Content → Except Fault String
  | text s => .ok s
  | bytes => .error .notText

namespace Tree

/-- What the file under a path holds, if there is a file. -/
def content? (t : Tree) (path : String) : Option Content :=
  match t.locate path with
  | .error _ => none
  | .ok place =>
    match t.node? place with
    | some (.file content) => some content
    | _ => none

/-- There is a file iff it holds something. -/
theorem isFile_eq (t : Tree) (path : String) : t.isFile path = (t.content? path).isSome := by
  unfold isFile content?
  cases t.locate path with
  | error fault => rfl
  | ok place =>
    cases hnode : t.node? place with
    | none => simp only [hnode, Option.isSome_none]
    | some node => cases node <;> simp only [hnode, Option.isSome_none, Option.isSome_some]

/-- A file that holds something is a node at the place of its path. -/
theorem exists_place_of_content? {t : Tree} {path : String} {content : Content}
    (h : t.content? path = some content) :
    ∃ place, t.locate path = .ok place ∧ t.node? place = some (.file content) := by
  unfold content? at h
  cases hplace : t.locate path with
  | error fault =>
    simp only [hplace] at h
    cases h
  | ok place =>
    simp only [hplace] at h
    cases hnode : t.node? place with
    | none =>
      simp only [hnode] at h
      cases h
    | some node =>
      cases node with
      | directory =>
        simp only [hnode] at h
        cases h
      | file other =>
        simp only [hnode] at h
        cases h
        exact ⟨place, rfl, hnode⟩

/-- What is read from a file is what it holds, if that is a text. -/
theorem readText_of_content? {t : Tree} {path : String} {content : Content}
    (h : t.content? path = some content) : t.readText path = content.asText := by
  obtain ⟨place, hplace, hnode⟩ := exists_place_of_content? h
  simp only [readText, hplace, bind, Except.bind, hnode]
  cases content <;> rfl

end Tree

/-! ## Reading a directory -/

/-- A layout file by what it holds. -/
def LayoutFile.ofContent : Option Content → LayoutFile
  | none => absent
  | some (.text s) => text s
  | some .bytes => unreadable .notText

/-- What a directory of a tree holds for a protocol. -/
def Tree.layoutOf (t : Tree) (directory : String) (e : Encoding) (p : Protocol) : LayoutFile :=
  .ofContent (t.content? (LayoutFile.path directory p e))

namespace LayoutFile

/-- What cannot be read from a tree is no text. -/
theorem eq_of_isUnreadable_ofContent {content : Option Content}
    (h : (ofContent content).isUnreadable = true) : ofContent content = unreadable .notText := by
  rcases content with _ | ⟨_ | _⟩
  · cases h
  · cases h
  · rfl

/-- What is read under a path is what the tree holds there, and the tree stays as it is. -/
theorem run_read (t : Tree) (path : String) :
    (read Tree.storage path).run t = (ofContent (t.content? path), t) := by
  have hfile : (Tree.storage.isFile path).run t = ((t.content? path).isSome, t) := by
    rw [← Tree.isFile_eq]
    rfl
  have hread : (Tree.storage.readText path).run t = (t.readText path, t) := rfl
  rw [read, run_bind_of_run hfile]
  cases hcontent : t.content? path with
  | none => rfl
  | some content =>
    rw [Tree.readText_of_content? hcontent] at hread
    simp only [Option.isSome_some, if_true]
    rw [run_bind_of_run hread]
    cases content <;> rfl

/-- What is read for some protocols is what the directory holds for them. -/
theorem run_readAll (t : Tree) (directory : String) (e : Encoding) (protocols : List Protocol) :
    (readAll Tree.storage directory e protocols).run t =
      (protocols.map fun p => (p, t.layoutOf directory e p), t) := by
  induction protocols with
  | nil => rfl
  | cons p protocols ih =>
    rw [readAll, run_bind_of_run (run_read t _), run_bind_of_run ih]
    rfl

/-- The file of a protocol that was read for is what was read for it. -/
theorem ofProtocol_map {protocols : List Protocol} (file : Protocol → LayoutFile) {p : Protocol}
    (hp : p ∈ protocols) : ofProtocol (protocols.map fun q => (q, file q)) p = file p := by
  unfold ofProtocol
  induction protocols with
  | nil => cases hp
  | cons q protocols ih =>
    rw [List.map_cons, List.lookup_cons]
    by_cases hq : p = q
    · subst hq
      simp
    · have hne : (p == q) = false := by simpa using hq
      rw [hne]
      exact ih ((List.mem_cons.mp hp).resolve_left hq)

end LayoutFile

namespace Registry

/-- A directory is loaded from the files that are read for the listed protocols. -/
theorem run_loadDirectory_eq_loadFiles (r : Registry) (t : Tree) (directory : String)
    (versions : List Version) (e : Encoding) (protocols : List Protocol) :
    (r.loadDirectory Tree.storage directory versions e protocols).run t =
      (r.loadFiles directory versions e protocols
        (protocols.map fun p => (p, t.layoutOf directory e p)), t) := by
  rw [loadDirectory, run_bind_of_run (LayoutFile.run_readAll t directory e protocols)]
  rfl

/-- **Reading**: a directory is loaded as the files that it holds for the listed protocols. -/
theorem run_loadDirectory (r : Registry) (t : Tree) (directory : String) (versions : List Version)
    (e : Encoding) (protocols : List Protocol) :
    (r.loadDirectory Tree.storage directory versions e protocols).run t =
      (((r.loadLayouts (t.layoutOf directory e) versions e protocols).1.mapError
          fun failure => (LayoutFile.path directory failure.1 e, failure.2),
        (r.loadLayouts (t.layoutOf directory e) versions e protocols).2), t) := by
  have hfiles : r.loadLayouts
      (LayoutFile.ofProtocol (protocols.map fun p => (p, t.layoutOf directory e p))) versions e
        protocols = r.loadLayouts (t.layoutOf directory e) versions e protocols :=
    r.loadLayouts_congr fun p hp => LayoutFile.ofProtocol_map (t.layoutOf directory e) hp
  rw [run_loadDirectory_eq_loadFiles, loadFiles, hfiles]

/-! ## Two outcomes -/

section

variable {t : Tree} {directory : String} {versions : List Version} {e : Encoding}
  {protocols : List Protocol}

/-- Where no file stands in the way a directory is loaded, and every slot is told by its file. -/
theorem run_loadDirectory_of_readable (r : Registry) (versions : List Version)
    (h : ∀ p ∈ protocols, (t.layoutOf directory e p).isUnreadable = false) :
    ∃ n r', (r.loadDirectory Tree.storage directory versions e protocols).run t = ((.ok n, r'), t) ∧
      n = ((protocols ×ˢ versions).countP fun position =>
        (t.layoutOf directory e position.1).isAccepted) ∧
      ∀ key, r'.slot key =
        if key.protocol ∈ protocols ∧ key.version ∈ versions ∧ key.encoding = e then
          (t.layoutOf directory e key.protocol).slotAfter key (r.slot key)
        else r.slot key := by
  refine ⟨_, (r.loadLayouts (t.layoutOf directory e) versions e protocols).2, ?_, rfl,
    r.slot_loadLayouts h⟩
  rw [run_loadDirectory, r.loadLayouts_fst h]
  rfl

/-- A position is accepted iff there is a text for its protocol and its key has a schema in the end. -/
theorem isAccepted_eq {r r' : Registry} {file : Protocol → LayoutFile} (hslots : ∀ key, r'.slot key =
      if key.protocol ∈ protocols ∧ key.version ∈ versions ∧ key.encoding = e then
        (file key.protocol).slotAfter key (r.slot key)
      else r.slot key) {position : Protocol × Version} (hposition : position ∈ protocols ×ˢ versions) :
    (file position.1).isAccepted =
      ((file position.1).isText && (r'.find ⟨position.1, position.2, e⟩).isOk) := by
  obtain ⟨p, v⟩ := position
  obtain ⟨hp, hv⟩ := List.mem_product.mp hposition
  have hslot := hslots ⟨p, v, e⟩
  rw [if_pos ⟨hp, hv, rfl⟩] at hslot
  cases hfile : file p with
  | absent => rfl
  | unreadable fault => rfl
  | text s =>
    simp only [hfile, LayoutFile.slotAfter] at hslot
    rw [isOk_find_of_slot hslot]
    rfl

/-- The first protocol whose file cannot be read, if there is one. -/
theorem exists_first_unreadable {file : Protocol → LayoutFile}
    (h : ∃ p ∈ protocols, (file p).isUnreadable = true) :
    ∃ before p after, protocols = before ++ p :: after ∧ (file p).isUnreadable = true ∧
      ∀ q ∈ before, (file q).isUnreadable = false := by
  obtain ⟨p, hp, hunreadable⟩ := h
  have hfind : (protocols.find? fun q => (file q).isUnreadable).isSome := by
    rw [List.find?_isSome]
    exact ⟨p, hp, hunreadable⟩
  obtain ⟨first, hfirst⟩ := Option.isSome_iff_exists.mp hfind
  obtain ⟨hfault, before, after, hprotocols, hbefore⟩ := List.find?_eq_some_iff_append.mp hfirst
  refine ⟨before, first, after, hprotocols, hfault, fun q hq => ?_⟩
  simpa using hbefore q hq

/-- Where a file stands in the way the loading fails with the path of the first one that does, and
leaves what it comes to with the protocols before it. -/
theorem run_loadDirectory_of_unreadable (r : Registry) (versions : List Version)
    (h : ∃ p ∈ protocols, (t.layoutOf directory e p).isUnreadable = true) :
    ∃ before p after n r', protocols = before ++ p :: after ∧
      (∀ q ∈ before, (t.layoutOf directory e q).isUnreadable = false) ∧
      t.layoutOf directory e p = .unreadable .notText ∧
      (r.loadDirectory Tree.storage directory versions e before).run t = ((.ok n, r'), t) ∧
      (r.loadDirectory Tree.storage directory versions e protocols).run t =
        ((.error (LayoutFile.path directory p e, .notText), r'), t) := by
  obtain ⟨before, p, after, rfl, hp, hbefore⟩ := exists_first_unreadable h
  have hfile := LayoutFile.eq_of_isUnreadable_ofContent hp
  obtain ⟨n, r', hrun, -⟩ := run_loadDirectory_of_readable r versions hbefore
  refine ⟨before, p, after, n, r', rfl, hbefore, hfile, hrun, ?_⟩
  rw [run_loadDirectory, r.loadLayouts_append_cons hbefore hfile]
  rw [run_loadDirectory] at hrun
  obtain ⟨hresult, -⟩ := Prod.mk.inj hrun
  obtain ⟨-, hregistry⟩ := Prod.mk.inj hresult
  rw [← hregistry]
  rfl

/-- A loading that succeeds has found no file that cannot be read. -/
theorem readable_of_run_loadDirectory {r r' : Registry} {n : Nat} {after : Tree}
    (h : (r.loadDirectory Tree.storage directory versions e protocols).run t = ((.ok n, r'), after)) :
    ∀ p ∈ protocols, (t.layoutOf directory e p).isUnreadable = false := by
  by_contra hfault
  push Not at hfault
  obtain ⟨p, hp, hunreadable⟩ := hfault
  obtain ⟨-, q, -, -, s, -, -, -, -, hrun⟩ :=
    r.run_loadDirectory_of_unreadable versions ⟨p, hp, Bool.ne_false_iff.mp hunreadable⟩
  rw [h] at hrun
  cases hrun

/-- After a loading that succeeds every slot is told by its file. -/
theorem slot_of_run_loadDirectory {r r' : Registry} {n : Nat} {after : Tree}
    (h : (r.loadDirectory Tree.storage directory versions e protocols).run t = ((.ok n, r'), after))
    (key : Key) :
    r'.slot key =
      if key.protocol ∈ protocols ∧ key.version ∈ versions ∧ key.encoding = e then
        (t.layoutOf directory e key.protocol).slotAfter key (r.slot key)
      else r.slot key := by
  obtain ⟨m, s, hrun, -, hslots⟩ :=
    r.run_loadDirectory_of_readable versions (readable_of_run_loadDirectory h)
  rw [h] at hrun
  cases hrun
  exact hslots key

/-- A registry stays well-formed when a directory is loaded, whether or not that succeeds. -/
theorem WellFormed.of_run_loadDirectory {r r' : Registry} {result : Except (String × Fault) Nat}
    {after : Tree} (hr : r.WellFormed)
    (h : (r.loadDirectory Tree.storage directory versions e protocols).run t = ((result, r'), after)) :
    r'.WellFormed := by
  rw [run_loadDirectory] at h
  obtain ⟨hresult, -⟩ := Prod.mk.inj h
  obtain ⟨-, rfl⟩ := Prod.mk.inj hresult
  rw [loadLayouts_eq_foldl]
  exact hr.foldl_write _

end

/-! ## Directories -/

/-- **Directories**: what a directory changes in a registry, whatever stood there.

If the files of all listed protocols are texts the loading succeeds. A listed protocol with a text
then answers under each listed version what the text calls for; all other keys answer as before; an
accepted text counts at each of its positions in the lists. Lists with the same members leave the same
registry, and to load once more changes nothing.

If some file is no text the loading fails with the path of the first of them, and leaves what the
protocols before it call for. -/
theorem loadDirectory_exact (r : Registry) (t : Tree) (directory : String) (versions : List Version)
    (e : Encoding) (protocols : List Protocol) :
    ((∀ p ∈ protocols, (t.layoutOf directory e p).isUnreadable = false) →
      ∃ n r', (r.loadDirectory Tree.storage directory versions e protocols).run t = ((.ok n, r'), t) ∧
        (∀ p ∈ protocols, ∀ v ∈ versions, ∀ s, t.layoutOf directory e p = .text s →
          (Write.ofText ⟨p, v, e⟩ s).Answers (r'.find ⟨p, v, e⟩)) ∧
        (∀ key : Key, ¬ (key.protocol ∈ protocols ∧ (t.layoutOf directory e key.protocol).isText ∧
          key.version ∈ versions ∧ key.encoding = e) → r'.find key = r.find key) ∧
        n = ((protocols ×ˢ versions).countP fun position =>
          (t.layoutOf directory e position.1).isText &&
            (r'.find ⟨position.1, position.2, e⟩).isOk) ∧
        (∀ protocols' versions', (∀ p, p ∈ protocols' ↔ p ∈ protocols) →
          (∀ v, v ∈ versions' ↔ v ∈ versions) →
            ∃ n' r'', (r.loadDirectory Tree.storage directory versions' e protocols').run t =
              ((.ok n', r''), t) ∧ r''.Same r') ∧
        ∃ r'', (r'.loadDirectory Tree.storage directory versions e protocols).run t =
          ((.ok n, r''), t) ∧ r''.Same r') ∧
    ((∃ p ∈ protocols, (t.layoutOf directory e p).isUnreadable = true) →
      ∃ before p after n r', protocols = before ++ p :: after ∧
        (∀ q ∈ before, (t.layoutOf directory e q).isUnreadable = false) ∧
        t.layoutOf directory e p = .unreadable .notText ∧
        (r.loadDirectory Tree.storage directory versions e before).run t = ((.ok n, r'), t) ∧
        (r.loadDirectory Tree.storage directory versions e protocols).run t =
          ((.error (LayoutFile.path directory p e, .notText), r'), t)) := by
  constructor
  · intro h
    obtain ⟨n, r', hrun, hn, hslots⟩ := run_loadDirectory_of_readable r versions h
    refine ⟨n, r', hrun, ?_, ?_, ?_, ?_, ?_⟩
    · intro p hp v hv s htext
      have hslot := hslots ⟨p, v, e⟩
      rw [if_pos ⟨hp, hv, rfl⟩] at hslot
      simp only [htext] at hslot
      exact answers_of_slot hslot
    · intro key huntouched
      apply find_congr
      rw [hslots]
      by_cases hkey : key.protocol ∈ protocols ∧ key.version ∈ versions ∧ key.encoding = e
      · -- without a text a listed key is not touched
        have hnoText : ¬ (t.layoutOf directory e key.protocol).isText := fun htext =>
          huntouched ⟨hkey.1, htext, hkey.2⟩
        rw [if_pos hkey, LayoutFile.slotAfter_of_not_isText hnoText]
      · rw [if_neg hkey]
    · rw [hn]
      exact List.countP_congr fun position hposition => by
        rw [isAccepted_eq hslots hposition]
    · intro protocols' versions' hprotocols hversions
      have h' : ∀ p ∈ protocols', (t.layoutOf directory e p).isUnreadable = false :=
        fun p hp => h p ((hprotocols p).mp hp)
      obtain ⟨n', r'', hrun', -, hslots'⟩ :=
        run_loadDirectory_of_readable r versions' h'
      refine ⟨n', r'', hrun', same_iff.mpr fun key => ?_⟩
      rw [hslots, hslots']
      simp only [hprotocols, hversions]
    · obtain ⟨n', r'', hrun', hn', hslots'⟩ :=
        run_loadDirectory_of_readable r' versions h
      refine ⟨r'', ?_, same_iff.mpr fun key => ?_⟩
      · rw [hrun', hn', hn]
      · rw [hslots', hslots]
        by_cases hkey : key.protocol ∈ protocols ∧ key.version ∈ versions ∧ key.encoding = e
        · simp only [if_pos hkey, LayoutFile.slotAfter_slotAfter]
        · simp only [if_neg hkey]
  · exact r.run_loadDirectory_of_unreadable versions

end Registry

end CaptureIngest
