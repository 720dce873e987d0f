import CaptureIngest.Layout
import CaptureIngest.Proofs.Text.Quoted
import Mathlib.Data.List.Nodup
import Mathlib.Data.Nat.Find

/-!
# The check of a list of fields

`Layout.check` against what it is to tell, which does not mention it.

* `IsSound fields`: there is a field, all names are plain identifiers and differ, and both ends of the
  capture window are there as unsigned integers that are never missing.
* `IsFaulty fields j`: the name at position `j` is bad or repeats an earlier one.
* `FirstDefect fields d`: `d` is to be told about the fields. That is that there are none, or what the
  first faulty position has, or, if there is no such position, what the capture window has.
* **Names** (`nameDefect?_append`, `IsFirstFaulty.nameDefect?_eq`): the names are gone through up to the
  first faulty position.
* **Timestamps** (`NamesSound.timestampDefect?_eq_none`, `NamesSound.timestampDefect?_eq_some`): names
  that differ make it clear which field is looked up.
* **Exactness** (`check_exact`): exactly the sound lists are accepted, in whatever order their fields
  stand, and for any other list exactly the first defect is told.
* **Layouts** (`fields_ne_nil`, `isPlainIdentifier_name`): what the check says about the fields of a
  layout, which carries the proof that it passed.
-/

namespace CaptureIngest.Layout

/-! ## Sound lists -/

/-- A field of this name can hold an end of the capture window. -/
def HasTimestamp (name : String) (fields : List Field) : Prop :=
  ∃ f ∈ fields, f.name = name ∧ f.nullable = false ∧ f.kind.isUnsigned = true

/-- The names of some fields are plain identifiers and differ. -/
structure NamesSound (fields : List Field) : Prop where
  /-- Every name is a plain identifier. -/
  isIdentifier : ∀ f ∈ fields, Text.IsIdentifier f.name
  /-- No two fields have one name. -/
  nodup : (fields.map Field.name).Nodup

/-- A list of fields is fit for records. -/
structure IsSound (fields : List Field) : Prop extends NamesSound fields where
  /-- There are fields. -/
  ne_nil : fields ≠ []
  /-- The beginning of the capture window is there. -/
  hasBegin : HasTimestamp captureBegin fields
  /-- Its end is there. -/
  hasEnd : HasTimestamp captureEnd fields

/-- Whether a list is sound is not a matter of order. -/
theorem IsSound.perm {fields fields' : List Field} (h : IsSound fields)
    (hperm : fields.Perm fields') : IsSound fields' := by
  have htime : ∀ {name}, HasTimestamp name fields → HasTimestamp name fields' :=
    fun ⟨f, hf, hfit⟩ => ⟨f, hperm.mem_iff.mp hf, hfit⟩
  exact {
    isIdentifier := fun f hf => h.isIdentifier f (hperm.mem_iff.mpr hf)
    nodup := (hperm.map _).nodup_iff.mp h.nodup
    ne_nil := fun hnil => h.ne_nil (hnil ▸ hperm).eq_nil
    hasBegin := htime h.hasBegin
    hasEnd := htime h.hasEnd }

/-! ## Faulty positions -/

/-- The name at this position, counted from zero, is bad or repeats an earlier one. -/
def IsFaulty (fields : List Field) (j : Nat) : Prop :=
  ∃ f, fields[j]? = some f ∧
    (¬ Text.IsIdentifier f.name ∨ ∃ i g, i < j ∧ fields[i]? = some g ∧ g.name = f.name)

/-- This is the first position that is faulty. -/
def IsFirstFaulty (fields : List Field) (j : Nat) : Prop :=
  IsFaulty fields j ∧ ∀ i < j, ¬ IsFaulty fields i

/-- Sound names stand at one position each. -/
theorem NamesSound.eq_of_name_eq {fields : List Field} (h : NamesSound fields) {i j : Nat}
    {f g : Field} (hf : fields[i]? = some f) (hg : fields[j]? = some g) (hname : f.name = g.name) :
    i = j := by
  have hi : (fields.map Field.name)[i]? = some g.name := by simp [hf, hname]
  have hj : (fields.map Field.name)[j]? = some g.name := by simp [hg]
  obtain ⟨hlt, -⟩ := List.getElem?_eq_some_iff.mp hi
  exact (List.getElem?_inj hlt h.nodup).mp (hi.trans hj.symm)

/-- The names are sound iff no position is faulty. -/
theorem namesSound_iff {fields : List Field} : NamesSound fields ↔ ∀ j, ¬ IsFaulty fields j := by
  constructor
  · rintro hsound j ⟨f, hf, hbad | ⟨i, g, hij, hg, hname⟩⟩
    · exact hbad (hsound.isIdentifier f (List.mem_of_getElem? hf))
    · exact absurd (hsound.eq_of_name_eq hg hf hname) (Nat.ne_of_lt hij)
  · intro h
    refine ⟨fun f hf => ?_, ?_⟩
    · obtain ⟨j, hj⟩ := List.getElem?_of_mem hf
      by_contra hbad
      exact h j ⟨f, hj, .inl hbad⟩
    · rw [List.Nodup, List.pairwise_map, List.pairwise_iff_getElem]
      intro i j hi hj hij hname
      have hg := List.getElem?_eq_getElem hi
      have hf := List.getElem?_eq_getElem hj
      exact h j ⟨_, hf, .inr ⟨i, _, hij, hg, hname⟩⟩

/-- In front of the first faulty position the names are sound. -/
theorem IsFirstFaulty.namesSound_take {fields : List Field} {j : Nat} (h : IsFirstFaulty fields j) :
    NamesSound (fields.take j) := by
  rw [namesSound_iff]
  rintro k ⟨f, hf, hfault⟩
  have htake : ∀ {i g}, (fields.take j)[i]? = some g → i < j ∧ fields[i]? = some g := by
    intro i g hg
    rw [List.getElem?_take] at hg
    split at hg
    · next hij => exact ⟨hij, hg⟩
    · cases hg
  obtain ⟨hk, hf⟩ := htake hf
  refine h.2 k hk ⟨f, hf, hfault.imp_right ?_⟩
  rintro ⟨i, g, hi, hg, hname⟩
  exact ⟨i, g, hi, (htake hg).2, hname⟩

/-! ## The first defect -/

/-- What is wrong with an end of the capture window. -/
inductive TimestampFault (name : String) (fields : List Field) : Defect → Prop
  /-- It is not there. -/
  | missing : (∀ f ∈ fields, f.name ≠ name) → TimestampFault name fields (.missingTimestamp name)
  /-- It may be missing in records, or is no unsigned integer. -/
  | bad {f : Field} : f ∈ fields → f.name = name → f.nullable = true ∨ f.kind.isUnsigned = false →
    TimestampFault name fields (.badTimestamp name f.typeText)

/-- What is to be told about some fields. Positions are counted from one where they are told. -/
inductive FirstDefect (fields : List Field) : Defect → Prop
  /-- There are none. -/
  | empty : fields = [] → FirstDefect fields .empty
  /-- The first faulty position has a bad name. -/
  | badName {j : Nat} {f : Field} : IsFirstFaulty fields j → fields[j]? = some f →
    ¬ Text.IsIdentifier f.name → FirstDefect fields (.badName f.name)
  /-- The first faulty position repeats the name of the only position before it with that name. -/
  | repeatedName {i j : Nat} {f g : Field} : IsFirstFaulty fields j → fields[j]? = some f →
    Text.IsIdentifier f.name → i < j → fields[i]? = some g → g.name = f.name →
    (∀ i' < j, ∀ g', fields[i']? = some g' → g'.name = f.name → i' = i) →
    FirstDefect fields (.repeatedName f.name (i + 1) (j + 1))
  /-- All names are sound, and something is wrong with the beginning of the capture window. -/
  | windowBegin {d : Defect} : fields ≠ [] → (∀ j, ¬ IsFaulty fields j) →
    TimestampFault captureBegin fields d → FirstDefect fields d
  /-- All names are sound and the beginning of the capture window too, but not its end. -/
  | windowEnd {d : Defect} : fields ≠ [] → (∀ j, ¬ IsFaulty fields j) →
    HasTimestamp captureBegin fields → TimestampFault captureEnd fields d → FirstDefect fields d

/-! ## Names -/

/-- Names that are sound, and new, are passed. -/
theorem nameDefect?_append {passed : List Field} (hid : ∀ f ∈ passed, Text.IsIdentifier f.name)
    (earlier : List String) (hnew : (earlier ++ passed.map Field.name).Nodup) (rest : List Field) :
    nameDefect? earlier (passed ++ rest) = nameDefect? (earlier ++ passed.map Field.name) rest := by
  induction passed generalizing earlier with
  | nil => simp
  | cons f passed ih =>
    rw [List.forall_mem_cons] at hid
    rw [List.map_cons, List.append_cons] at hnew ⊢
    have hplain : ¬ Text.isPlainIdentifier f.name = false := by
      simpa using Text.isPlainIdentifier_iff.mpr hid.1
    have hfirst : earlier.idxOf? f.name = none := by
      rw [List.idxOf?_eq_none_iff]
      intro hmem
      have hnew := (List.nodup_append.mp hnew).1
      exact (List.nodup_append.mp hnew).2.2 f.name hmem f.name (List.mem_singleton_self _) rfl
    rw [List.cons_append, nameDefect?, if_neg hplain, hfirst]
    exact ih hid.2 _ hnew

/-- Sound names have no defect. -/
theorem NamesSound.nameDefect?_eq_none {fields : List Field} (h : NamesSound fields) :
    nameDefect? [] fields = none := by
  have happend := nameDefect?_append h.isIdentifier [] h.nodup []
  rw [List.append_nil] at happend
  rw [happend, nameDefect?]

/-- The names are gone through up to the first faulty position. -/
theorem IsFirstFaulty.nameDefect?_eq {fields : List Field} {j : Nat} {f : Field}
    (h : IsFirstFaulty fields j) (hf : fields[j]? = some f) :
    nameDefect? [] fields =
      nameDefect? ((fields.take j).map Field.name) (f :: fields.drop (j + 1)) := by
  have hsound := h.namesSound_take
  obtain ⟨hlt, hget⟩ := List.getElem?_eq_some_iff.mp hf
  have hsplit : fields = fields.take j ++ f :: fields.drop (j + 1) := by
    rw [← hget, List.getElem_cons_drop, List.take_append_drop]
  conv_lhs => rw [hsplit]
  exact nameDefect?_append hsound.isIdentifier [] hsound.nodup _

/-- A name is found at the only position that has it. -/
theorem idxOf?_take {fields : List Field} {i j : Nat} {g : Field} (hij : i < j)
    (hg : fields[i]? = some g)
    (honly : ∀ i' < j, ∀ g', fields[i']? = some g' → g'.name = g.name → i' = i) :
    ((fields.take j).map Field.name).idxOf? g.name = some i := by
  obtain ⟨hi, rfl⟩ := List.getElem?_eq_some_iff.mp hg
  have hlt : i < ((fields.take j).map Field.name).length := by
    rw [List.length_map, List.length_take]
    exact lt_min hij hi
  rw [List.idxOf?_eq_some_iff]
  refine ⟨hlt, by simp, fun k hk hname => ?_⟩
  rw [List.getElem_map, List.getElem_take] at hname
  have hki := honly k (Nat.lt_trans hk hij) _ (List.getElem?_eq_getElem (Nat.lt_trans hk hi)) hname
  exact absurd hki (Nat.ne_of_lt hk)

/-- In front of a position of a list there are as many names as its number says. -/
theorem length_map_take {fields : List Field} {j : Nat} {f : Field} (hf : fields[j]? = some f) :
    ((fields.take j).map Field.name).length = j := by
  obtain ⟨hlt, -⟩ := List.getElem?_eq_some_iff.mp hf
  rw [List.length_map, List.length_take]
  exact Nat.min_eq_left (Nat.le_of_lt hlt)

/-- A name is repeated at the first faulty position from one earlier position at most. -/
theorem IsFirstFaulty.eq_of_name_eq {fields : List Field} {i i' j : Nat} {g g' : Field}
    (h : IsFirstFaulty fields j) (hi : i < j) (hg : fields[i]? = some g) (hi' : i' < j)
    (hg' : fields[i']? = some g') (hname : g'.name = g.name) : i' = i := by
  have htake : ∀ {k f}, k < j → fields[k]? = some f → (fields.take j)[k]? = some f := by
    intro k f hk hf
    rw [List.getElem?_take_of_lt hk, hf]
  exact h.namesSound_take.eq_of_name_eq (htake hi' hg') (htake hi hg) hname

/-! ## Timestamps -/

/-- Among sound names a field is found by its name. -/
theorem NamesSound.find?_name {fields : List Field} (h : NamesSound fields) {f : Field}
    (hf : f ∈ fields) : fields.find? (fun g => g.name == f.name) = some f := by
  cases hfind : fields.find? (fun g => g.name == f.name) with
  | none => simpa using List.find?_eq_none.mp hfind f hf
  | some g =>
    have hg := List.mem_of_find?_eq_some hfind
    have hname : g.name = f.name := by simpa using List.find?_some hfind
    rw [List.inj_on_of_nodup_map h.nodup hg hf hname]

/-- A capture time that is as it must be has no defect. -/
theorem NamesSound.timestampDefect?_eq_none {fields : List Field} (h : NamesSound fields)
    {name : String} (htime : HasTimestamp name fields) : timestampDefect? name fields = none := by
  obtain ⟨f, hf, rfl, hnullable, hunsigned⟩ := htime
  rw [timestampDefect?, h.find?_name hf]
  simp [isTimestamp, hnullable, hunsigned]

/-- A capture time that is not as it must be has the defect that is its fault. -/
theorem NamesSound.timestampDefect?_eq_some {fields : List Field} (h : NamesSound fields)
    {name : String} {d : Defect} (hfault : TimestampFault name fields d) :
    timestampDefect? name fields = some d := by
  cases hfault with
  | missing hmissing =>
    have hfind : fields.find? (fun f => f.name == name) = none := by
      simpa [List.find?_eq_none] using hmissing
    rw [timestampDefect?, hfind]
  | bad hf hname hbad =>
    subst hname
    rw [timestampDefect?, h.find?_name hf]
    rcases hbad with hnullable | hunsigned
    · simp [isTimestamp, hnullable]
    · simp [isTimestamp, hunsigned]

/-- An end of the capture window is as it should be, or something is wrong with it. -/
theorem hasTimestamp_or_exists_fault (name : String) (fields : List Field) :
    HasTimestamp name fields ∨ ∃ d, TimestampFault name fields d := by
  by_cases hthere : ∃ f ∈ fields, f.name = name
  · obtain ⟨f, hf, hname⟩ := hthere
    by_cases hfit : f.nullable = false ∧ f.kind.isUnsigned = true
    · exact .inl ⟨f, hf, hname, hfit⟩
    · rw [not_and_or, Bool.not_eq_false, Bool.not_eq_true] at hfit
      exact .inr ⟨_, .bad hf hname hfit⟩
  · push Not at hthere
    exact .inr ⟨_, .missing hthere⟩

/-! ## The check -/

/-- Fields pass the check iff they have no defect. -/
theorem check_eq_ok_iff {fields : List Field} : check fields = .ok () ↔ defect? fields = none := by
  unfold check
  split <;> simp_all

/-- Fields fail the check for the defect that they have. -/
theorem check_eq_error_iff {fields : List Field} {d : Defect} :
    check fields = .error d ↔ defect? fields = some d := by
  unfold check
  split <;> simp_all

/-- Behind sound names the capture window is looked at. -/
theorem NamesSound.defect?_eq {fields : List Field} (h : NamesSound fields) (hne : fields ≠ []) :
    defect? fields =
      (timestampDefect? captureBegin fields).or (timestampDefect? captureEnd fields) := by
  rw [defect?, if_neg (by simpa using hne), h.nameDefect?_eq_none, Option.none_or]

/-- A sound list has no defect. -/
theorem IsSound.defect?_eq_none {fields : List Field} (h : IsSound fields) : defect? fields = none := by
  have hnames := h.toNamesSound
  rw [hnames.defect?_eq h.ne_nil, hnames.timestampDefect?_eq_none h.hasBegin,
    hnames.timestampDefect?_eq_none h.hasEnd]
  rfl

/-- What is wrong at the first faulty position is the defect of the list. -/
theorem IsFirstFaulty.defect?_eq {fields : List Field} {j : Nat} {f : Field} {d : Defect}
    (h : IsFirstFaulty fields j) (hf : fields[j]? = some f)
    (hd : nameDefect? ((fields.take j).map Field.name) (f :: fields.drop (j + 1)) = some d) :
    defect? fields = some d := by
  have hne : fields ≠ [] := by
    rintro rfl
    cases hf
  rw [defect?, if_neg (by simpa using hne), h.nameDefect?_eq hf, hd]
  rfl

/-- What is to be told is told. -/
theorem FirstDefect.defect?_eq {fields : List Field} {d : Defect} (h : FirstDefect fields d) :
    defect? fields = some d := by
  cases h with
  | empty hnil =>
    subst hnil
    rfl
  | @badName j f hj hf hbad =>
    refine hj.defect?_eq hf ?_
    rw [← Text.isPlainIdentifier_iff, Bool.not_eq_true] at hbad
    rw [nameDefect?, if_pos hbad]
  | @repeatedName i j f g hj hf hid hij hg hname honly =>
    refine hj.defect?_eq hf ?_
    have hplain : ¬ Text.isPlainIdentifier f.name = false := by
      simpa using Text.isPlainIdentifier_iff.mpr hid
    have hfound := idxOf?_take hij hg (hname ▸ honly)
    rw [hname] at hfound
    rw [nameDefect?, if_neg hplain, hfound, length_map_take hf]
  | windowBegin hne hclean hfault =>
    have hnames := namesSound_iff.mpr hclean
    rw [hnames.defect?_eq hne, hnames.timestampDefect?_eq_some hfault]
    rfl
  | windowEnd hne hclean hbegin hfault =>
    have hnames := namesSound_iff.mpr hclean
    rw [hnames.defect?_eq hne, hnames.timestampDefect?_eq_none hbegin,
      hnames.timestampDefect?_eq_some hfault]
    rfl

/-- A list with a faulty position has a first one, and something is to be told about it. -/
theorem exists_firstDefect_of_isFaulty {fields : List Field} {j : Nat} (h : IsFaulty fields j) :
    ∃ d, FirstDefect fields d := by
  classical
  have hfirst : IsFirstFaulty fields (Nat.find ⟨j, h⟩) :=
    ⟨Nat.find_spec ⟨j, h⟩, fun i hi => Nat.find_min ⟨j, h⟩ hi⟩
  obtain ⟨f, hf, hfault⟩ := hfirst.1
  by_cases hid : Text.IsIdentifier f.name
  · obtain ⟨i, g, hij, hg, hname⟩ := hfault.resolve_left (not_not_intro hid)
    refine ⟨_, .repeatedName hfirst hf hid hij hg hname fun i' hi' g' hg' hname' => ?_⟩
    exact hfirst.eq_of_name_eq hij hg hi' hg' (hname'.trans hname.symm)
  · exact ⟨_, .badName hfirst hf hid⟩

/-- A list is sound, or something is to be told about it. -/
theorem isSound_or_exists_firstDefect (fields : List Field) :
    IsSound fields ∨ ∃ d, FirstDefect fields d := by
  by_cases hne : fields = []
  · exact .inr ⟨_, .empty hne⟩
  by_cases hfaulty : ∃ j, IsFaulty fields j
  · obtain ⟨j, hj⟩ := hfaulty
    exact .inr (exists_firstDefect_of_isFaulty hj)
  have hclean : ∀ j, ¬ IsFaulty fields j := fun j hj => hfaulty ⟨j, hj⟩
  rcases hasTimestamp_or_exists_fault captureBegin fields with hbegin | ⟨d, hd⟩
  · rcases hasTimestamp_or_exists_fault captureEnd fields with hend | ⟨d, hd⟩
    · exact .inl { namesSound_iff.mpr hclean with ne_nil := hne, hasBegin := hbegin, hasEnd := hend }
    · exact .inr ⟨d, .windowEnd hne hclean hbegin hd⟩
  · exact .inr ⟨d, .windowBegin hne hclean hd⟩

/-- Exactly the sound lists have no defect. -/
theorem isSound_iff {fields : List Field} : IsSound fields ↔ defect? fields = none := by
  refine ⟨IsSound.defect?_eq_none, fun h => ?_⟩
  rcases isSound_or_exists_firstDefect fields with hsound | ⟨d, hd⟩
  · exact hsound
  · rw [hd.defect?_eq] at h
    cases h

/-- Exactly the first defect is told. -/
theorem firstDefect_iff {fields : List Field} {d : Defect} :
    FirstDefect fields d ↔ defect? fields = some d := by
  refine ⟨FirstDefect.defect?_eq, fun h => ?_⟩
  rcases isSound_or_exists_firstDefect fields with hsound | ⟨e, he⟩
  · rw [hsound.defect?_eq_none] at h
    cases h
  · rw [he.defect?_eq] at h
    exact Option.some.inj h ▸ he

/-- **Exactness**: exactly the sound lists of fields are accepted, so that the order of the fields does
not matter for that, and for any other list exactly the first defect is told. -/
theorem check_exact (fields : List Field) :
    (check fields = .ok () ↔ IsSound fields) ∧
      (∀ fields', fields.Perm fields' → (check fields = .ok () ↔ check fields' = .ok ())) ∧
      ∀ d, check fields = .error d ↔ FirstDefect fields d := by
  have hok : ∀ fields, check fields = .ok () ↔ IsSound fields := fun fields =>
    check_eq_ok_iff.trans isSound_iff.symm
  refine ⟨hok fields, fun fields' hperm => ?_, fun d => check_eq_error_iff.trans firstDefect_iff.symm⟩
  rw [hok, hok]
  exact ⟨fun h => h.perm hperm, fun h => h.perm hperm.symm⟩

/-! ## Layouts -/

/-- The fields of a layout are sound. -/
theorem isSound_fields (l : Layout) : IsSound l.fields :=
  isSound_iff.mpr l.sound

/-- A layout has a field. -/
theorem fields_ne_nil (l : Layout) : l.fields ≠ [] :=
  l.isSound_fields.ne_nil

/-- The names of a layout's fields are plain identifiers. -/
theorem isPlainIdentifier_name (l : Layout) {f : Field} (hf : f ∈ l.fields) :
    Text.isPlainIdentifier f.name = true :=
  Text.isPlainIdentifier_iff.mpr (l.isSound_fields.isIdentifier f hf)

end CaptureIngest.Layout
