import CaptureIngest.Proofs.Layout.Check

/-!
# Fields looked up by name

Records are read by position, and a layout is asked for a field by its name. `Layout.position?` and
`Layout.field?` stop at the first field of the name. What makes them the inverse of the order is that
the names of a layout differ, which is part of the check that every layout has passed.

* **What is found** (`position?_eq_some_iff`, `field?_eq_some_iff`): the position of a name is any at
  which a field of that name stands, and the field of a name is any field that has it.
* **What is not found** (`position?_eq_none_iff`, `field?_eq_none_iff`): exactly the names that no field
  has.
* **The capture window** (`exists_lookups_of_hasTimestamp`, `position?_inj`): both of its ends are found,
  at two positions.
* **Inversion** (`Schema.lookups_invert_order`): all of this for the schema of any fields that are
  accepted.
-/

namespace CaptureIngest

namespace Layout

variable {l : Layout} {name : String}

/-! ## What is found -/

/-- The position of a name is where a field of that name stands. -/
theorem position?_eq_some_iff {i : Nat} :
    l.position? name = some i ↔ ∃ f, l.fields[i]? = some f ∧ f.name = name := by
  rw [position?, List.findIdx?_eq_some_iff_getElem]
  constructor
  · rintro ⟨hi, hname, -⟩
    exact ⟨l.fields[i], List.getElem?_eq_getElem hi, beq_iff_eq.mp hname⟩
  · rintro ⟨f, hf, rfl⟩
    obtain ⟨hi, rfl⟩ := List.getElem?_eq_some_iff.mp hf
    refine ⟨hi, beq_self_eq_true _, fun j hj hname => ?_⟩
    -- the search would stop at `j` only if the name stood there too
    have hget := List.getElem?_eq_getElem (Nat.lt_trans hj hi)
    have hji : j = i := l.isSound_fields.eq_of_name_eq hget hf (beq_iff_eq.mp hname)
    exact absurd hji (Nat.ne_of_lt hj)

/-- The field of a name is the one that has it. -/
theorem field?_eq_some_iff {f : Field} :
    l.field? name = some f ↔ f ∈ l.fields ∧ f.name = name := by
  constructor
  · intro h
    exact ⟨List.mem_of_find?_eq_some h, by simpa using List.find?_some h⟩
  · rintro ⟨hf, rfl⟩
    exact l.isSound_fields.find?_name hf

/-! ## What is not found -/

/-- A name without a position is one that no field has. -/
theorem position?_eq_none_iff : l.position? name = none ↔ ∀ f ∈ l.fields, f.name ≠ name := by
  simp [position?, List.findIdx?_eq_none_iff]

/-- A name without a field is one that no field has. -/
theorem field?_eq_none_iff : l.field? name = none ↔ ∀ f ∈ l.fields, f.name ≠ name := by
  simp [field?, List.find?_eq_none]

/-! ## The capture window -/

/-- Two names are not found at one position. -/
theorem position?_inj {name' : String} {i : Nat} (h : l.position? name = some i)
    (h' : l.position? name' = some i) : name = name' := by
  obtain ⟨f, hf, rfl⟩ := position?_eq_some_iff.mp h
  obtain ⟨g, hg, rfl⟩ := position?_eq_some_iff.mp h'
  rw [Option.some.inj (hf.symm.trans hg)]

/-- A field that can hold an end of the capture window is found by its name. -/
theorem exists_lookups_of_hasTimestamp (h : HasTimestamp name l.fields) :
    ∃ i f, l.position? name = some i ∧ l.field? name = some f ∧
      f.nullable = false ∧ f.kind.isUnsigned = true := by
  obtain ⟨f, hf, hname, hfit⟩ := h
  obtain ⟨i, hi⟩ := List.getElem?_of_mem hf
  exact ⟨i, f, position?_eq_some_iff.mpr ⟨f, hi, hname⟩, field?_eq_some_iff.mpr ⟨hf, hname⟩, hfit⟩

end Layout

namespace Schema

open Layout (captureBegin captureEnd)

/-! ## Inversion -/

/-- A schema is made of its key and its fields. -/
theorem ofFields_eq_ok_iff {key : Key} {fields : List Field} {s : Schema} :
    ofFields key fields = .ok s ↔ s.key = key ∧ s.fields = fields := by
  constructor
  · intro h
    unfold ofFields at h
    split at h
    · next layout hlayout =>
      cases h
      exact ⟨rfl, Layout.ofFields_eq_ok_iff.mp hlayout⟩
    · cases h
  · rintro ⟨rfl, rfl⟩
    rw [ofFields, fields, Layout.ofFields_fields]

/-- **Inversion**: whatever fields are accepted, the look-ups by name undo their order. Each name leads
to its position and its field, any other name to nothing, and both ends of the capture window are
found, at two positions and fit for it. -/
theorem lookups_invert_order {key : Key} {fields : List Field} {s : Schema}
    (h : ofFields key fields = .ok s) :
    (s.key = key ∧ s.fields = fields) ∧
    (∀ i (hi : i < s.fields.length), s.layout.position? s.fields[i].name = some i ∧
      s.layout.field? s.fields[i].name = some s.fields[i]) ∧
    (∀ name, (∀ f ∈ s.fields, f.name ≠ name) →
      s.layout.position? name = none ∧ s.layout.field? name = none) ∧
    ∃ i j f g, i ≠ j ∧
      (s.layout.position? captureBegin = some i ∧ s.layout.field? captureBegin = some f ∧
        f.nullable = false ∧ f.kind.isUnsigned = true) ∧
      (s.layout.position? captureEnd = some j ∧ s.layout.field? captureEnd = some g ∧
        g.nullable = false ∧ g.kind.isUnsigned = true) := by
  have hsound := s.layout.isSound_fields
  refine ⟨ofFields_eq_ok_iff.mp h, fun i hi => ⟨?_, ?_⟩, fun name hname => ⟨?_, ?_⟩, ?_⟩
  · exact Layout.position?_eq_some_iff.mpr ⟨s.fields[i], List.getElem?_eq_getElem hi, rfl⟩
  · exact Layout.field?_eq_some_iff.mpr ⟨List.getElem_mem hi, rfl⟩
  · exact Layout.position?_eq_none_iff.mpr hname
  · exact Layout.field?_eq_none_iff.mpr hname
  · obtain ⟨i, f, hi, hf⟩ := Layout.exists_lookups_of_hasTimestamp hsound.hasBegin
    obtain ⟨j, g, hj, hg⟩ := Layout.exists_lookups_of_hasTimestamp hsound.hasEnd
    refine ⟨i, j, f, g, ?_, ⟨hi, hf⟩, ⟨hj, hg⟩⟩
    rintro rfl
    exact absurd (Layout.position?_inj hi hj) (by decide)

/-- A poller, the capture window and a measured size that may be missing. -/
def polledSize : List Field :=
  [.required "poller" .string, .captureTime "capture_begin", .captureTime "capture_end",
    (Field.bytes "mtu_client" .u32).orNull]

/-- The end of the capture window is the third of these fields, and no field is called `port`. -/
theorem lookups_invert_order_polledSize :
    ∃ s, ofFields ⟨.tcp, .v30, .csv⟩ polledSize = .ok s ∧
      s.layout.position? "capture_end" = some 2 ∧
      s.layout.field? "mtu_client" = some ⟨"mtu_client", .u32, true, some .bytes, none⟩ ∧
      s.layout.position? "port" = none := by
  let s : Schema := ⟨⟨.tcp, .v30, .csv⟩, polledSize, by decide⟩
  have hs : ofFields ⟨.tcp, .v30, .csv⟩ polledSize = .ok s := ofFields_eq_ok_iff.mpr ⟨rfl, rfl⟩
  obtain ⟨-, hfound, hnot, -⟩ := lookups_invert_order hs
  exact ⟨s, hs, (hfound 2 (by decide)).1, (hfound 3 (by decide)).2, (hnot "port" (by decide)).1⟩

end Schema

end CaptureIngest
