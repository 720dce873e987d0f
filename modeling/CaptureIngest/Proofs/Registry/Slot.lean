import CaptureIngest.Proofs.Registry.Run
import Mathlib.Data.List.ProdSigma

/-!
# What stands under a key

What layout texts change in a registry is told key by key. They are loaded for a list of protocols, a
list of versions and one encoding; the keys of these are touched for which there is a text, and each
holds afterwards what the text is worth.

* `Registry.slot r key`: what stands under a key, on both sides of a registry. It decides every
  answer (`find_congr`), and registries with the same slots hold the same (`same_iff`).
* **Slots** (`Registry.slot_loadLayouts`): after a directory was loaded a slot is that of the text if
  its key was touched, and what it was before if not. Neither order nor repetition of the lists plays
  a part in that.
* **Counting** (`Registry.loadLayouts_fst`): an accepted text counts once for each position of its
  protocol and each position of a version.
* **Breaking off** (`Registry.loadLayouts_append_cons`): the first file that is no text ends the
  loading, with the protocols before it loaded.
-/

namespace CaptureIngest

/-! ## Slots -/

/-- What an entry puts under its key. -/
def Entry.slot (key : Key) : Entry → Option Schema × Option Defect
  | loaded layout => (some ⟨key, layout⟩, none)
  | rejected reason => (none, some reason)

namespace Registry

/-- What stands under a key on the two sides of a registry. -/
def slot (r : Registry) (key : Key) : Option Schema × Option Defect :=
  (r.schemas[key]?, r.refusals[key]?)

/-- Two registries hold the same layouts and the same refusals. -/
def Same (r r' : Registry) : Prop :=
  r.schemas.Equiv r'.schemas ∧ r.refusals.Equiv r'.refusals

/-- Registries hold the same iff they do under each key. -/
theorem same_iff {r r' : Registry} : r.Same r' ↔ ∀ key, r.slot key = r'.slot key := by
  constructor
  · rintro ⟨hschemas, hrefusals⟩ key
    exact congrArg₂ Prod.mk hschemas.getElem?_eq hrefusals.getElem?_eq
  · intro h
    exact ⟨.of_forall_constGet?_eq fun key => (Prod.mk.inj (h key)).1,
      .of_forall_constGet?_eq fun key => (Prod.mk.inj (h key)).2⟩

/-- What stands under a key decides what is answered there. -/
theorem find_congr {r r' : Registry} {key : Key} (h : r.slot key = r'.slot key) :
    r.find key = r'.find key := by
  obtain ⟨hschema, hrefusal⟩ := Prod.mk.inj h
  unfold find
  rw [hschema, hrefusal]

/-- To settle a key puts the entry there and leaves all else. -/
theorem slot_settle (r : Registry) (key k : Key) (entry : Entry) :
    (r.settle key entry).slot k = if key = k then entry.slot k else r.slot k := by
  cases entry with
  | loaded layout =>
    simp only [settle, load, slot, Std.TreeMap.getElem?_insert, Std.TreeMap.getElem?_erase,
      Std.LawfulEqCmp.compare_eq_iff_eq]
    by_cases h : key = k
    · subst h
      simp only [if_true, Entry.slot]
    · simp only [if_neg h]
  | rejected reason =>
    simp only [settle, reject, slot, Std.TreeMap.getElem?_insert, Std.TreeMap.getElem?_erase,
      Std.LawfulEqCmp.compare_eq_iff_eq]
    by_cases h : key = k
    · subst h
      simp only [if_true, Entry.slot]
    · simp only [if_neg h]

/-- Where an entry stands a schema is found iff it holds a layout. -/
theorem isOk_find_of_slot {r : Registry} {key : Key} {entry : Entry}
    (h : r.slot key = entry.slot key) : (r.find key).isOk = entry.isLoaded := by
  unfold find
  cases entry with
  | loaded layout =>
    obtain ⟨hschema, -⟩ := Prod.mk.inj h
    rw [hschema]
    rfl
  | rejected reason =>
    obtain ⟨hschema, hrefusal⟩ := Prod.mk.inj h
    rw [hschema, hrefusal]
    rfl

/-- Where a layout stands it is found. -/
theorem find_of_slot_loaded {r : Registry} {key : Key} {layout : Layout}
    (h : r.slot key = (Entry.loaded layout).slot key) : r.find key = .ok ⟨key, layout⟩ := by
  obtain ⟨hschema, -⟩ := Prod.mk.inj h
  unfold find
  rw [hschema]

end Registry

/-- The write that a text comes to is done under the key that is meant. -/
theorem Write.key_ofText (key : Key) (text : String) : (Write.ofText key text).key = key := by
  unfold Write.ofText
  cases Layout.readFields text <;> rfl

/-- Where the entry of a text stands the answer is what the text calls for. -/
theorem Registry.answers_of_slot {r : Registry} {key : Key} {text : String}
    (h : r.slot key = (Entry.ofText text).slot key) : (Write.ofText key text).Answers (r.find key) := by
  have hsettled : r.slot key = (r.settle key (.ofText text)).slot key := by
    rw [h, Registry.slot_settle, if_pos rfl]
  have hanswer := r.answers_find_write (.ofText key text)
  rw [← Registry.settle_ofText, Write.key_ofText] at hanswer
  rw [Registry.find_congr hsettled]
  exact hanswer

/-! ## Layout files -/

namespace LayoutFile

/-- Whether there is a text. -/
def isText : LayoutFile → Bool
  | text _ => true
  | _ => false

/-- Whether there is a text that is accepted. -/
def isAccepted : LayoutFile → Bool
  | text s => (Entry.ofText s).isLoaded
  | _ => false

/-- What stands under a key after a file was loaded for it. -/
def slotAfter (key : Key) (before : Option Schema × Option Defect) :
    LayoutFile → Option Schema × Option Defect
  | text s => (Entry.ofText s).slot key
  | _ => before

/-- Without a text nothing changes under a key. -/
theorem slotAfter_of_not_isText {key : Key} {before : Option Schema × Option Defect}
    {file : LayoutFile} (h : ¬ file.isText) : slotAfter key before file = before := by
  cases file with
  | absent => rfl
  | unreadable fault => rfl
  | text s => exact absurd rfl h

/-- A file that is loaded again leaves what it left before. -/
theorem slotAfter_slotAfter (key : Key) (before : Option Schema × Option Defect)
    (file : LayoutFile) : slotAfter key (slotAfter key before file) file = slotAfter key before file := by
  cases file <;> rfl

/-- A file that can be read is a text or is not there. -/
theorem cases_of_readable {file : LayoutFile} (h : file.isUnreadable = false) :
    file = absent ∨ ∃ s, file = text s := by
  cases file with
  | absent => exact .inl rfl
  | unreadable fault => cases h
  | text s => exact .inr ⟨s, rfl⟩

end LayoutFile

namespace Registry

/-! ## One text -/

/-- A text leaves its entry under all versions of its protocol and touches nothing else. -/
theorem slot_loadText (p : Protocol) (e : Encoding) (s : String) (r : Registry)
    (versions : List Version) (key : Key) :
    ((loadText p e s r versions).2).slot key =
      if key.protocol = p ∧ key.version ∈ versions ∧ key.encoding = e then (Entry.ofText s).slot key
      else r.slot key := by
  induction versions generalizing r with
  | nil => simp [loadText]
  | cons v versions ih =>
    rw [loadText]
    show ((loadText p e s (r.settle ⟨p, v, e⟩ (.ofText s)) versions).2).slot key = _
    rw [ih, slot_settle]
    by_cases hkey : (⟨p, v, e⟩ : Key) = key
    · subst hkey
      simp
    · have hv : ¬ (key.protocol = p ∧ key.version = v ∧ key.encoding = e) := by
        rintro ⟨rfl, rfl, rfl⟩
        exact hkey rfl
      have hmem : (key.protocol = p ∧ key.version ∈ v :: versions ∧ key.encoding = e) ↔
          (key.protocol = p ∧ key.version ∈ versions ∧ key.encoding = e) := by
        rw [List.mem_cons]
        tauto
      rw [if_neg hkey]
      simp only [hmem]

/-- A text that is accepted counts once for each version. -/
theorem fst_loadText (p : Protocol) (e : Encoding) (s : String) (r : Registry)
    (versions : List Version) :
    (loadText p e s r versions).1 = versions.countP fun _ => (Entry.ofText s).isLoaded := by
  induction versions generalizing r with
  | nil => rfl
  | cons v versions ih =>
    rw [loadText]
    show (Entry.ofText s).isLoaded.toNat +
      (loadText p e s (r.settle ⟨p, v, e⟩ (.ofText s)) versions).1 = _
    rw [ih, List.countP_cons]
    cases (Entry.ofText s).isLoaded <;> simp [Nat.add_comm]

/-! ## Many files -/

variable {file : Protocol → LayoutFile} {versions : List Version} {e : Encoding}
  {protocols : List Protocol}

/-- A protocol without a file is passed over. -/
theorem loadLayouts_cons_of_absent (r : Registry) {p : Protocol} (h : file p = .absent) :
    r.loadLayouts file versions e (p :: protocols) = r.loadLayouts file versions e protocols := by
  rw [loadLayouts, h]

/-- A text is loaded before the rest, and what it counts is added. -/
theorem loadLayouts_cons_of_text (r : Registry) {p : Protocol} {s : String} (h : file p = .text s) :
    r.loadLayouts file versions e (p :: protocols) =
      (((loadText p e s r versions).2.loadLayouts file versions e protocols).1.map
          ((loadText p e s r versions).1 + ·),
        ((loadText p e s r versions).2.loadLayouts file versions e protocols).2) := by
  rw [loadLayouts, h]
  simp only
  rcases (loadText p e s r versions).2.loadLayouts file versions e protocols with ⟨_ | n, r'⟩ <;> rfl

/-- **Slots**: where all files can be read, what is left under a key is what its text is worth if the
key was touched, and what stood there if not. -/
theorem slot_loadLayouts (r : Registry) (h : ∀ p ∈ protocols, (file p).isUnreadable = false)
    (key : Key) :
    ((r.loadLayouts file versions e protocols).2).slot key =
      if key.protocol ∈ protocols ∧ key.version ∈ versions ∧ key.encoding = e then
        (file key.protocol).slotAfter key (r.slot key)
      else r.slot key := by
  induction protocols generalizing r with
  | nil => simp [loadLayouts]
  | cons p protocols ih =>
    have hrest : ∀ q ∈ protocols, (file q).isUnreadable = false :=
      fun q hq => h q (List.mem_cons_of_mem p hq)
    rcases LayoutFile.cases_of_readable (h p List.mem_cons_self) with habsent | ⟨s, htext⟩
    · rw [loadLayouts_cons_of_absent r habsent, ih r hrest]
      by_cases hp : key.protocol = p
      · -- without a file it makes no difference whether the protocol is listed
        rw [hp, habsent]
        simp [LayoutFile.slotAfter]
      · simp [hp]
    · rw [loadLayouts_cons_of_text r htext]
      show ((loadLayouts file versions e (loadText p e s r versions).2 protocols).2).slot key = _
      rw [ih _ hrest, slot_loadText]
      by_cases hv : key.version ∈ versions ∧ key.encoding = e
      · by_cases hp : key.protocol = p
        · rw [hp, htext]
          simp [hv, LayoutFile.slotAfter]
        · simp [hp, hv]
      · simp [hv]

/-- **Counting**: where all files can be read, the loading succeeds, and counts the positions of the
lists at which a text was accepted. -/
theorem loadLayouts_fst (r : Registry) (h : ∀ p ∈ protocols, (file p).isUnreadable = false) :
    (r.loadLayouts file versions e protocols).1 =
      .ok ((protocols ×ˢ versions).countP fun position => (file position.1).isAccepted) := by
  induction protocols generalizing r with
  | nil => rfl
  | cons p protocols ih =>
    have hrest : ∀ q ∈ protocols, (file q).isUnreadable = false :=
      fun q hq => h q (List.mem_cons_of_mem p hq)
    rw [List.product_cons, List.countP_append, List.countP_map]
    rcases LayoutFile.cases_of_readable (h p List.mem_cons_self) with habsent | ⟨s, htext⟩
    · have hnone : versions.countP
          ((fun position : Protocol × Version => (file position.1).isAccepted) ∘ fun v => (p, v)) =
            0 := by
        rw [List.countP_eq_zero]
        intro v _
        simp [habsent, LayoutFile.isAccepted]
      rw [loadLayouts_cons_of_absent r habsent, ih r hrest, hnone, Nat.zero_add]
    · have hsome : versions.countP
          ((fun position : Protocol × Version => (file position.1).isAccepted) ∘ fun v => (p, v)) =
            (loadText p e s r versions).1 := by
        rw [fst_loadText]
        simp [Function.comp_def, htext, LayoutFile.isAccepted]
      rw [loadLayouts_cons_of_text r htext, ih _ hrest, hsome]
      rfl

/-- **Breaking off**: the first file that cannot be read ends the loading, with the protocols before
it loaded. -/
theorem loadLayouts_append_cons (r : Registry) {before after : List Protocol} {p : Protocol}
    {fault : Fault} (h : ∀ q ∈ before, (file q).isUnreadable = false)
    (hp : file p = .unreadable fault) :
    r.loadLayouts file versions e (before ++ p :: after) =
      (.error (p, fault), (r.loadLayouts file versions e before).2) := by
  induction before generalizing r with
  | nil =>
    rw [List.nil_append]
    unfold loadLayouts
    rw [hp]
  | cons q before ih =>
    have hrest : ∀ q' ∈ before, (file q').isUnreadable = false :=
      fun q' hq' => h q' (List.mem_cons_of_mem q hq')
    rw [List.cons_append]
    rcases LayoutFile.cases_of_readable (h q List.mem_cons_self) with habsent | ⟨s, htext⟩
    · rw [loadLayouts_cons_of_absent r habsent, loadLayouts_cons_of_absent r habsent, ih r hrest]
    · rw [loadLayouts_cons_of_text r htext, loadLayouts_cons_of_text r htext, ih _ hrest]
      rfl

/-- Only the files of the listed protocols are looked at. -/
theorem loadLayouts_congr (r : Registry) {file' : Protocol → LayoutFile}
    (h : ∀ p ∈ protocols, file p = file' p) :
    r.loadLayouts file versions e protocols = r.loadLayouts file' versions e protocols := by
  induction protocols generalizing r with
  | nil => rfl
  | cons p protocols ih =>
    have hrest : ∀ q ∈ protocols, file q = file' q := fun q hq => h q (List.mem_cons_of_mem p hq)
    have hrestEq := fun r' : Registry => ih r' hrest
    simp only [loadLayouts, h p List.mem_cons_self, hrestEq]

end Registry

end CaptureIngest
