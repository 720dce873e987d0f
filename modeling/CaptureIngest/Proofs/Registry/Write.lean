import CaptureIngest.Registry

/-!
# Writes to a registry

A registry is written to under one key at a time: a list of fields is offered, a schema is put in,
or a key is rejected. Whichever it is, the write is a `load` or a `reject` under its key, with the
answer that it calls for (`Registry.write_cases`); the rest follows from that.

* **One write** (`Registry.answers_find_write`, `Registry.find_write_of_ne`): under its key it is
  what a look-up answers, and under other keys nothing changes.
* **Well-formed registries** (`Registry.WellFormed.write`): schemas stand under their own keys, and
  no key is both loaded and rejected. Every write keeps this.
* **Many writes** (`Registry.find_foldl_write`, `Registry.find_foldl_write_of_untouched`): the last
  write under a key is what a look-up answers, and a key without a write answers as before.
-/

namespace CaptureIngest

/-- One write to a registry. -/
inductive Write
  /-- A list of fields is offered. -/
  | register (key : Key) (fields : List Field)
  /-- A schema is put in. -/
  | insert (schema : Schema)
  /-- The layout for a key is refused. -/
  | reject (key : Key) (reason : Defect)

namespace Write

/-- The key that is written. -/
def key : Write → Key
  | register key _ => key
  | insert schema => schema.key
  | reject key _ => key

/-- The answers of a look-up that a write calls for: a schema with the key and the fields if they
passed the check or came as a schema, and otherwise the reason why there is none. -/
def Answers : Write → Except Failure Schema → Prop
  | register key fields, answer =>
    (Layout.check fields = .ok () ∧
      ∃ schema : Schema, answer = .ok schema ∧ schema.key = key ∧ schema.fields = fields) ∨
    ∃ reason, Layout.check fields = .error reason ∧ answer = .error (.rejected key reason)
  | insert schema, answer => answer = .ok schema
  | reject key reason, answer => answer = .error (.rejected key reason)

end Write

/-- The fields of a layout pass the check. -/
theorem Layout.check_fields (l : Layout) : check l.fields = .ok () := by
  unfold check
  rw [l.sound]

namespace Registry

/-- Does a write. -/
def write (r : Registry) : Write → Registry
  | .register key fields => r.register key fields
  | .insert schema => r.load schema.key schema.layout
  | .reject key reason => r.reject key reason

/-! ## One write -/

/-- An offer is settled by a layout of the fields, or by what the check says of them. -/
theorem register_cases (r : Registry) (key : Key) (fields : List Field) :
    (∃ layout : Layout, layout.fields = fields ∧ r.register key fields = r.load key layout) ∨
      ∃ reason, Layout.check fields = .error reason ∧
        r.register key fields = r.reject key reason := by
  unfold register Entry.ofFields
  cases h : Layout.ofFields fields with
  | ok layout => exact .inl ⟨layout, Layout.ofFields_eq_ok_iff.mp h, rfl⟩
  | error reason =>
    have hdefect := Layout.ofFields_eq_error_iff.mp h
    refine .inr ⟨reason, ?_, rfl⟩
    unfold Layout.check
    rw [hdefect]

/-- A write loads or rejects its key, and what then stands there is what it calls for. -/
theorem write_cases (r : Registry) (w : Write) :
    (∃ layout, r.write w = r.load w.key layout ∧ w.Answers (.ok ⟨w.key, layout⟩)) ∨
      ∃ reason, r.write w = r.reject w.key reason ∧
        w.Answers (.error (.rejected w.key reason)) := by
  cases w with
  | register key fields =>
    rcases r.register_cases key fields with ⟨layout, hfields, h⟩ | ⟨reason, hcheck, h⟩
    · have hcheck : Layout.check fields = .ok () := hfields ▸ layout.check_fields
      exact .inl ⟨layout, h, .inl ⟨hcheck, ⟨key, layout⟩, rfl, rfl, hfields⟩⟩
    · exact .inr ⟨reason, h, .inr ⟨reason, hcheck, rfl⟩⟩
  | insert schema => exact .inl ⟨schema.layout, rfl, rfl⟩
  | reject key reason => exact .inr ⟨reason, rfl, rfl⟩

/-- After a write, a look-up under its key answers what it calls for. -/
theorem answers_find_write (r : Registry) (w : Write) : w.Answers ((r.write w).find w.key) := by
  rcases r.write_cases w with ⟨layout, h, hanswer⟩ | ⟨reason, h, hanswer⟩
  · rw [h, find_load, if_pos rfl]
    exact hanswer
  · rw [h, find_reject, if_pos rfl]
    exact hanswer

/-- A write changes no answer under other keys. -/
theorem find_write_of_ne (r : Registry) {w : Write} {key : Key} (hne : w.key ≠ key) :
    (r.write w).find key = r.find key := by
  rcases r.write_cases w with ⟨layout, h, -⟩ | ⟨reason, h, -⟩
  · rw [h, find_load, if_neg hne]
  · rw [h, find_reject, if_neg hne]

/-! ## Well-formed registries -/

/-- The two sides of a registry agree with each other and with the keys. -/
structure WellFormed (r : Registry) : Prop where
  /-- A schema stands under its own key. -/
  keyed : ∀ (key : Key) (schema : Schema), r.schemas[key]? = some schema → schema.key = key
  /-- No key is both loaded and rejected. -/
  apart : ∀ key : Key, ¬ (key ∈ r.schemas ∧ key ∈ r.refusals)

/-- Nothing stands in the empty registry. -/
theorem wellFormed_empty : empty.WellFormed where
  keyed key schema h := by simp [empty] at h
  apart key h := by simp [empty] at h

/-- To load a key takes it from the refusals. -/
theorem WellFormed.load {r : Registry} (h : r.WellFormed) (key : Key) (layout : Layout) :
    (r.load key layout).WellFormed where
  keyed k schema hk := by
    simp only [Registry.load, Std.TreeMap.getElem?_insert,
      Std.LawfulEqCmp.compare_eq_iff_eq] at hk
    by_cases hkey : key = k
    · rw [if_pos hkey, Option.some_inj] at hk
      rw [← hk]
      exact hkey
    · rw [if_neg hkey] at hk
      exact h.keyed k schema hk
  apart k := by
    simp only [Registry.load, Std.TreeMap.mem_insert, Std.TreeMap.mem_erase, ne_eq,
      Std.LawfulEqCmp.compare_eq_iff_eq]
    rintro ⟨rfl | hloaded, hne, hrefused⟩
    · exact hne rfl
    · exact h.apart k ⟨hloaded, hrefused⟩

/-- To reject a key takes it from the schemas. -/
theorem WellFormed.reject {r : Registry} (h : r.WellFormed) (key : Key) (reason : Defect) :
    (r.reject key reason).WellFormed where
  keyed k schema hk := by
    simp only [Registry.reject, Std.TreeMap.getElem?_erase,
      Std.LawfulEqCmp.compare_eq_iff_eq] at hk
    by_cases hkey : key = k
    · rw [if_pos hkey] at hk
      cases hk
    · rw [if_neg hkey] at hk
      exact h.keyed k schema hk
  apart k := by
    simp only [Registry.reject, Std.TreeMap.mem_insert, Std.TreeMap.mem_erase, ne_eq,
      Std.LawfulEqCmp.compare_eq_iff_eq]
    rintro ⟨⟨hne, hloaded⟩, rfl | hrefused⟩
    · exact hne rfl
    · exact h.apart k ⟨hloaded, hrefused⟩

/-- Every write keeps a registry well-formed. -/
theorem WellFormed.write {r : Registry} (h : r.WellFormed) (w : Write) :
    (r.write w).WellFormed := by
  rcases r.write_cases w with ⟨layout, hw, -⟩ | ⟨reason, hw, -⟩
  · rw [hw]
    exact h.load w.key layout
  · rw [hw]
    exact h.reject w.key reason

/-! ## Many writes -/

/-- Any number of writes keeps a registry well-formed. -/
theorem WellFormed.foldl_write {r : Registry} (h : r.WellFormed) (ws : List Write) :
    (ws.foldl Registry.write r).WellFormed := by
  induction ws generalizing r with
  | nil => exact h
  | cons w ws ih => exact ih (h.write w)

/-- A key that is not written answers as before. -/
theorem find_foldl_write_of_untouched (r : Registry) {ws : List Write} {key : Key}
    (h : ∀ w ∈ ws, w.key ≠ key) : (ws.foldl write r).find key = r.find key := by
  induction ws generalizing r with
  | nil => rfl
  | cons w ws ih =>
    have hws : (ws.foldl write (r.write w)).find key = (r.write w).find key :=
      ih _ fun v hv => h v (List.mem_cons_of_mem w hv)
    rw [List.foldl_cons, hws]
    exact r.find_write_of_ne (h w List.mem_cons_self)

/-- The last write under a key is what a look-up answers. -/
theorem find_foldl_write (r : Registry) (before : List Write) (w : Write) {after : List Write}
    (h : ∀ later ∈ after, later.key ≠ w.key) :
    w.Answers (((before ++ w :: after).foldl write r).find w.key) := by
  rw [List.foldl_append, List.foldl_cons, find_foldl_write_of_untouched _ h]
  exact answers_find_write _ w

end Registry

end CaptureIngest
