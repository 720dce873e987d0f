import CaptureIngest.Layout.Recognition
import Mathlib.Data.List.Forall2

/-!
# What a layout text says

`Layout.readFields` against two things that do not mention it: the grammar of layout texts, and
what a single declaration says.

* `Declaration.Denotes d f`: the declaration `d` says the field `f`. The names of its type and of
  its unit are those of the type and the unit of `f`.
* `Declaration.Fault d e`: the declaration `d` says no field, and the defect `e` tells why. A type
  that nobody knows is blamed before a unit that nobody knows.
* **One declaration** (`toField_eq_ok_iff`, `toField_eq_error`): looking up its type and unit gives
  exactly the field it says, or the fault it has.
* **Many declarations** (`toFields_eq_ok`, `toFields_eq_error`): all fields in order, or the fault
  of the first declaration that has one.
* **Whole texts** (`readFields_exact`): a text is refused as unreadable iff it is no layout; a
  layout without declarations is empty; any other gives what its declarations say.
-/

namespace CaptureIngest

/-! ## Names of types and units -/

/-- A type is found under its own name only. -/
theorem Kind.ofName?_eq_some_iff {s : String} {k : Kind} : ofName? s = some k ↔ k.name = s := by
  constructor
  · intro h
    have found := List.find?_some h
    simpa using found
  · rintro rfl
    exact ofName?_name k

/-- No type is found under a text that is the name of none. -/
theorem Kind.ofName?_eq_none_iff {s : String} : ofName? s = none ↔ ∀ k : Kind, k.name ≠ s := by
  constructor
  · intro h k hk
    rw [ofName?_eq_some_iff.mpr hk] at h
    cases h
  · intro h
    cases hs : ofName? s with
    | none => rfl
    | some k => exact absurd (ofName?_eq_some_iff.mp hs) (h k)

/-- Units differ in their names. -/
theorem Measure.name_injective {m n : Measure} (h : m.name = n.name) : m = n := by
  have table : ∀ m ∈ all, ∀ n ∈ all, m.name = n.name → m = n := by decide
  exact table m m.mem_all n n.mem_all h

/-- A unit is found under its own name only, white space around it apart. -/
theorem Measure.ofText?_eq_some_iff {s : String} {m : Measure} :
    ofText? s = some m ↔ m.name = Text.trim s := by
  constructor
  · intro h
    have found := List.find?_some h
    simpa using found
  · intro h
    cases hs : ofText? s with
    | none =>
      have missing := List.find?_eq_none.mp hs m m.mem_all
      exact absurd h (by simpa using missing)
    | some n =>
      have found := List.find?_some hs
      have hn : n.name = Text.trim s := by simpa using found
      rw [name_injective (hn.trans h.symm)]

/-- No unit is found under a text that, trimmed, is the name of none. -/
theorem Measure.ofText?_eq_none_iff {s : String} :
    ofText? s = none ↔ ∀ m : Measure, m.name ≠ Text.trim s := by
  constructor
  · intro h m hm
    rw [ofText?_eq_some_iff.mpr hm] at h
    cases h
  · intro h
    cases hs : ofText? s with
    | none => rfl
    | some m => exact absurd (ofText?_eq_some_iff.mp hs) (h m)

/-! ## One declaration -/

namespace Declaration

/-- A declaration says a field: as written, but for the white space around the unit. -/
structure Denotes (d : Declaration) (f : Field) : Prop where
  /-- The names agree. -/
  name : f.name = d.name
  /-- The type is the one of the name that is written. -/
  kind : f.kind.name = d.typeName
  /-- The question mark says whether a value may be missing. -/
  nullable : f.nullable = d.nullable
  /-- There is a unit where there are braces, and it is the one of the name between them. -/
  measure : f.measure.map Measure.name = d.unitText?.map Text.trim
  /-- A declaration carries no remark. -/
  note : f.note = none

/-- What is wrong with a declaration whose type or unit nobody knows. -/
inductive Fault (d : Declaration) : Defect → Prop
  /-- The type has the name of none. -/
  | type : (∀ k : Kind, k.name ≠ d.typeName) → Fault d (.unknownType d.name d.typeName)
  /-- The type is known, and the unit has the name of none. -/
  | unit {k : Kind} {text : String} : k.name = d.typeName → d.unitText? = some text →
    (∀ m : Measure, m.name ≠ Text.trim text) → Fault d (.unknownMeasure d.name (Text.trim text))

/-- Looking up a declaration gives the field that it says or the fault that it has. -/
theorem toField_spec (d : Declaration) :
    (∃ f, d.toField = .ok f ∧ d.Denotes f) ∨ (∃ e, d.toField = .error e ∧ d.Fault e) := by
  cases hk : Kind.ofName? d.typeName with
  | none =>
    right
    refine ⟨.unknownType d.name d.typeName, ?_, .type (Kind.ofName?_eq_none_iff.mp hk)⟩
    simp only [toField, hk]
  | some k =>
    have hkind := Kind.ofName?_eq_some_iff.mp hk
    cases hu : d.unitText? with
    | none =>
      left
      refine ⟨⟨d.name, k, d.nullable, none, none⟩, ?_, rfl, hkind, rfl, ?_, rfl⟩
      · simp only [toField, hk, hu]
      · rw [hu]
        rfl
    | some text =>
      cases hm : Measure.ofText? text with
      | none =>
        right
        refine ⟨.unknownMeasure d.name (Text.trim text), ?_,
          .unit hkind hu (Measure.ofText?_eq_none_iff.mp hm)⟩
        simp only [toField, hk, hu, hm]
      | some m =>
        left
        refine ⟨⟨d.name, k, d.nullable, some m, none⟩, ?_, rfl, hkind, rfl, ?_, rfl⟩
        · simp only [toField, hk, hu, hm]
        · rw [hu, Option.map_some, Option.map_some, Measure.ofText?_eq_some_iff.mp hm]

/-- A declaration says one field at most. -/
theorem Denotes.unique {d : Declaration} {f g : Field} (hf : d.Denotes f) (hg : d.Denotes g) :
    f = g := by
  have hkind : f.kind = g.kind := by
    have hf := Kind.ofName?_eq_some_iff.mpr hf.kind
    have hg := Kind.ofName?_eq_some_iff.mpr hg.kind
    exact Option.some.inj (hf.symm.trans hg)
  have hmeasure : f.measure = g.measure :=
    Option.map_injective (fun _ _ => Measure.name_injective) (hf.measure.trans hg.measure.symm)
  have hname := hf.name.trans hg.name.symm
  have hnullable := hf.nullable.trans hg.nullable.symm
  have hnote := hf.note.trans hg.note.symm
  cases f
  cases g
  simp_all

/-- A declaration with a fault says no field. -/
theorem Fault.not_denotes {d : Declaration} {e : Defect} (he : d.Fault e) (f : Field) :
    ¬ d.Denotes f := by
  intro hf
  cases he with
  | type unknown => exact unknown f.kind hf.kind
  | unit _ hu unknown =>
    have hm := hf.measure
    rw [hu, Option.map_some] at hm
    obtain ⟨m, -, hm⟩ := Option.map_eq_some_iff.mp hm
    exact unknown m hm

/-- A declaration gives a field iff it says that field. -/
theorem toField_eq_ok_iff {d : Declaration} {f : Field} : d.toField = .ok f ↔ d.Denotes f := by
  rcases toField_spec d with ⟨g, hg, meant⟩ | ⟨e, he, fault⟩
  · constructor
    · intro h
      rw [hg] at h
      cases h
      exact meant
    · intro h
      rw [hg, meant.unique h]
  · constructor
    · intro h
      rw [he] at h
      cases h
    · intro h
      exact absurd h (fault.not_denotes f)

/-- A declaration without a fault says a field. -/
theorem exists_denotes {d : Declaration} (h : ∀ e, ¬ d.Fault e) : ∃ f, d.Denotes f := by
  rcases toField_spec d with ⟨f, -, meant⟩ | ⟨e, -, fault⟩
  · exact ⟨f, meant⟩
  · exact absurd fault (h e)

/-- A fault is what looking up the declaration reports: the type before the unit. -/
theorem toField_eq_error {d : Declaration} {e : Defect} (h : d.Fault e) : d.toField = .error e := by
  cases h with
  | type unknown => simp only [toField, Kind.ofName?_eq_none_iff.mpr unknown]
  | unit hk hu unknown =>
    simp only [toField, Kind.ofName?_eq_some_iff.mpr hk, hu, Measure.ofText?_eq_none_iff.mpr unknown]

/-! ## Many declarations -/

/-- The fields of a list of declarations are those that they say, in order. -/
theorem toFields_eq_ok {ds : List Declaration} {fs : List Field} (h : List.Forall₂ Denotes ds fs) :
    toFields ds = .ok fs := by
  induction h with
  | nil => rfl
  | cons meant _ ih =>
    rw [toFields, toField_eq_ok_iff.mpr meant, ih]
    rfl

/-- Declarations without faults say a list of fields. -/
theorem exists_forall₂_denotes {ds : List Declaration} (h : ∀ d ∈ ds, ∀ e, ¬ d.Fault e) :
    ∃ fs, List.Forall₂ Denotes ds fs := by
  induction ds with
  | nil => exact ⟨[], .nil⟩
  | cons d ds ih =>
    obtain ⟨f, hf⟩ := exists_denotes (h d List.mem_cons_self)
    obtain ⟨fs, hfs⟩ := ih fun d' hd' => h d' (List.mem_cons_of_mem d hd')
    exact ⟨f :: fs, .cons hf hfs⟩

/-- The first declaration with a fault decides, whatever stands behind it. -/
theorem toFields_eq_error {before : List Declaration} {d : Declaration} {e : Defect}
    (hbefore : ∀ b ∈ before, ∀ e, ¬ b.Fault e) (he : d.Fault e) (after : List Declaration) :
    toFields (before ++ d :: after) = .error e := by
  induction before with
  | nil =>
    rw [List.nil_append, toFields, toField_eq_error he]
    rfl
  | cons b before ih =>
    obtain ⟨f, hf⟩ := exists_denotes (hbefore b List.mem_cons_self)
    have hrest := ih fun b' hb' => hbefore b' (List.mem_cons_of_mem b hb')
    rw [List.cons_append, toFields, toField_eq_ok_iff.mpr hf, hrest]
    rfl

/-- Looking up declarations never reports an unreadable text. -/
theorem toFields_ne_unreadable {ds : List Declaration} {line : Nat} {found : Unexpected} :
    toFields ds ≠ .error (.unreadable line found) := by
  induction ds with
  | nil => exact nofun
  | cons d ds ih =>
    intro h
    rw [toFields] at h
    rcases toField_spec d with ⟨f, hf, -⟩ | ⟨e, he, fault⟩
    · rw [hf] at h
      cases hds : toFields ds with
      | ok fs =>
        rw [hds] at h
        cases h
      | error e =>
        rw [hds] at h
        cases h
        exact ih hds
    · rw [he] at h
      cases h
      cases fault

end Declaration

/-! ## Whole texts -/

namespace Layout

/-- A text is refused as unreadable iff the grammar has no derivation for it. -/
theorem readFields_unreadable_iff (text : String) :
    (∃ line found, readFields text = .error (.unreadable line found)) ↔
      ¬ ∃ ds, IsLayoutOf ds text.toList := by
  constructor
  · rintro ⟨line, found, h⟩ ⟨ds, hds⟩
    rw [readFields, readLayout_eq_ok_iff.mpr hds] at h
    cases ds with
    | nil => cases h
    | cons d ds => exact Declaration.toFields_ne_unreadable h
  · intro h
    cases hread : readLayout text.toList with
    | error stop => exact ⟨_, _, by rw [readFields, hread]; rfl⟩
    | ok ds => exact absurd ⟨ds, readLayout_eq_ok_iff.mp hread⟩ h

/-- What a text with a derivation gives is up to its declarations. -/
theorem readFields_of_isLayoutOf {ds : List Declaration} {text : String}
    (h : IsLayoutOf ds text.toList) (hne : ds ≠ []) :
    readFields text = Declaration.toFields ds := by
  rw [readFields, readLayout_eq_ok_iff.mpr h]
  cases ds with
  | nil => exact absurd rfl hne
  | cons d ds => rfl

/-- **Reading is exact.** A text is unreadable iff it is no layout. A layout without declarations
is empty; otherwise the first declaration with a fault decides, and without any fault the text
gives the fields that its declarations say, in order. -/
theorem readFields_exact (text : String) :
    ((∃ line found, readFields text = .error (.unreadable line found)) ↔
        ¬ ∃ ds, IsLayoutOf ds text.toList) ∧
      ∀ ds, IsLayoutOf ds text.toList →
        (ds = [] → readFields text = .error .empty) ∧
        (∀ before d after e, ds = before ++ d :: after → (∀ b ∈ before, ∀ e, ¬ b.Fault e) →
          d.Fault e → readFields text = .error e) ∧
        (ds ≠ [] → (∀ d ∈ ds, ∀ e, ¬ d.Fault e) →
          ∃ fs, readFields text = .ok fs ∧ List.Forall₂ Declaration.Denotes ds fs) := by
  refine ⟨readFields_unreadable_iff text, fun ds hds => ⟨?_, ?_, ?_⟩⟩
  · rintro rfl
    rw [readFields, readLayout_eq_ok_iff.mpr hds]
  · rintro before d after e rfl hbefore he
    rw [readFields_of_isLayoutOf hds (by simp)]
    exact Declaration.toFields_eq_error hbefore he after
  · intro hne hfaults
    obtain ⟨fs, hfs⟩ := Declaration.exists_forall₂_denotes hfaults
    refine ⟨fs, ?_, hfs⟩
    rw [readFields_of_isLayoutOf hds hne, Declaration.toFields_eq_ok hfs]

end Layout

end CaptureIngest
