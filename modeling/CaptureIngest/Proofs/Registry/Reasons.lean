import CaptureIngest.Proofs.Layout.Reasons
import CaptureIngest.Proofs.Registry.Directory
import CaptureIngest.Proofs.Source.Files

/-!
# A registry tells its reasons on one line

Why there is no schema under a key is told on one line, whatever stood in the layout texts that were
loaded.

* `Registry.TellsOneLine`: every answer without a schema is told on one line.
* **Writes** (`Registry.TellsOneLine.write`): it stays so under every write that calls for a failure of
  one line, if it calls for a failure.
* **Sessions** (`Registry.tellsOneLine_builtin`, `Registry.TellsOneLine.of_run_loadDirectory`): it is
  so of the built-in layouts, and stays so when a directory is loaded.
-/

namespace CaptureIngest

/-- Keys are told on one line. -/
theorem Key.oneLine_render (key : Key) : Text.OneLine key.render := by
  have hprotocol : ∀ p ∈ Protocol.all, Text.OneLine p.name := by decide
  have hencoding : ∀ e ∈ Encoding.all, Text.OneLine e.name := by decide
  have hversion : Text.OneLine key.version.text := key.version.not_mem_text (by decide)
  simp only [render, Text.oneLine_append]
  exact ⟨⟨⟨⟨hprotocol _ key.protocol.mem_all, by decide⟩, hversion⟩, by decide⟩,
    hencoding _ key.encoding.mem_all⟩

/-- A reason of one line makes a failure of one line. -/
theorem Failure.oneLine_message_rejected {key : Key} {reason : Defect}
    (h : Text.OneLine reason.message) : Text.OneLine (rejected key reason).message := by
  show Text.OneLine ("schema " ++ key.render ++ " rejected: " ++ reason.message)
  simp only [Text.oneLine_append]
  exact ⟨⟨⟨by decide, key.oneLine_render⟩, by decide⟩, h⟩

/-- That nothing is registered is told on one line. -/
theorem Failure.oneLine_message_notRegistered (key : Key) :
    Text.OneLine (notRegistered key).message := by
  show Text.OneLine ("no schema registered for " ++ key.render)
  simp only [Text.oneLine_append]
  exact ⟨by decide, key.oneLine_render⟩

/-- Where a write calls for no schema, it calls for a failure of one line. -/
def Write.TellsOneLine (w : Write) : Prop :=
  ∀ failure, w.Answers (.error failure) → Text.OneLine failure.message

/-- Fields with names of one line are refused on one line. -/
theorem Write.tellsOneLine_register (key : Key) {fields : List Field}
    (hnames : ∀ f ∈ fields, Text.OneLine f.name) : (Write.register key fields).TellsOneLine := by
  rintro failure (⟨-, schema, h, -⟩ | ⟨reason, hcheck, h⟩)
  · cases h
  · cases h
    exact Failure.oneLine_message_rejected (Layout.oneLine_message_of_check hnames hcheck)

/-- A text is refused on one line. -/
theorem Write.tellsOneLine_ofText (key : Key) (text : String) :
    (Write.ofText key text).TellsOneLine := by
  obtain ⟨herror, hok⟩ := Layout.oneLine_of_readFields text
  unfold Write.ofText
  cases hread : Layout.readFields text with
  | ok fields => exact tellsOneLine_register key (hok fields hread)
  | error reason =>
    rintro failure ⟨⟩
    exact Failure.oneLine_message_rejected (herror reason hread)

namespace Registry

/-- Every answer without a schema is told on one line. -/
def TellsOneLine (r : Registry) : Prop :=
  ∀ key failure, r.find key = .error failure → Text.OneLine failure.message

/-- A registry in which nothing was tried has nothing to tell. -/
theorem tellsOneLine_empty : empty.TellsOneLine := by
  intro key failure h
  rw [find_empty] at h
  cases h
  exact Failure.oneLine_message_notRegistered key

/-- **Writes**: a write that tells its failure on one line leaves a registry that does. -/
theorem TellsOneLine.write {r : Registry} (h : r.TellsOneLine) {w : Write} (hw : w.TellsOneLine) :
    (r.write w).TellsOneLine := by
  intro key failure hfind
  by_cases hkey : w.key = key
  · subst hkey
    have hanswer := r.answers_find_write w
    rw [hfind] at hanswer
    exact hw failure hanswer
  · rw [find_write_of_ne r hkey] at hfind
    exact h key failure hfind

/-- So is what is told after any number of writes. -/
theorem TellsOneLine.foldl_write {r : Registry} (h : r.TellsOneLine) {ws : List Write}
    (hws : ∀ w ∈ ws, w.TellsOneLine) : (ws.foldl Registry.write r).TellsOneLine := by
  induction ws generalizing r with
  | nil => exact h
  | cons w ws ih =>
    obtain ⟨hw, hws⟩ := List.forall_mem_cons.mp hws
    exact ih (h.write hw) hws

/-- **Sessions**: so does the registry of the built-in layouts. -/
theorem tellsOneLine_builtin : builtin.TellsOneLine := by
  -- to compare bytes takes less time than to decode them
  have hbytes : ∀ p ∈ Protocol.all, ∀ f ∈ p.v30Fields, 10 ∉ f.name.toByteArray.data.toList := by
    decide +kernel
  have hwrites := Origin.registry_eq_foldl .builtin
  rw [Origin.registry] at hwrites
  rw [hwrites]
  apply tellsOneLine_empty.foldl_write
  intro w hw
  obtain ⟨key, -, rfl⟩ := List.mem_map.mp hw
  apply Write.tellsOneLine_register key
  intro f hf
  exact Text.oneLine_of_bytes (hbytes _ key.protocol.mem_all f hf)

/-- So does a registry into which a directory was loaded. -/
theorem TellsOneLine.of_run_loadDirectory {r r' : Registry} {result : Except (String × Fault) Nat}
    {t after : Tree} {directory : String} {versions : List Version} {e : Encoding}
    {protocols : List Protocol} (h : r.TellsOneLine)
    (hrun : (r.loadDirectory Tree.storage directory versions e protocols).run t =
      ((result, r'), after)) : r'.TellsOneLine := by
  rw [run_loadDirectory] at hrun
  obtain ⟨hresult, -⟩ := Prod.mk.inj hrun
  obtain ⟨-, rfl⟩ := Prod.mk.inj hresult
  rw [loadLayouts_eq_foldl]
  apply h.foldl_write
  intro w hw
  obtain ⟨p, -, hw⟩ := List.mem_flatMap.mp hw
  cases hfile : t.layoutOf directory e p with
  | absent => simp [hfile, LayoutFile.writes] at hw
  | unreadable fault => simp [hfile, LayoutFile.writes] at hw
  | text s =>
    rw [hfile] at hw
    obtain ⟨v, -, rfl⟩ := List.mem_map.mp hw
    exact Write.tellsOneLine_ofText _ s

end Registry

end CaptureIngest
