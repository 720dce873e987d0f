import CaptureIngest.Generation
import CaptureIngest.Proofs.Definition.Batch
import CaptureIngest.Proofs.Registry.Run
import Mathlib.Data.List.Forall2

/-!
# What a generation accounts for

A plan asks for a list of keys, version by version, and each of them ends up in one of two places:
among the definitions if it has a schema, and among the skipped ones otherwise. Which of the two is
a matter of the registry alone; that a batch may be refused as a whole is a matter of the names.

* **Keys** (`Plan.length_keys`): one for each version and protocol, repetitions included.
* **Two places** (`Plan.forall₂_found`, `Plan.forall₂_missing`): the keys that have a schema and
  those that have none, each in the order of the plan.
* **Refusals** (`Plan.pairwise_name_iff`): in a registry that keeps schemas under their own keys,
  two definitions of one plan share a name iff their keys share a protocol.
* **Accounts** (`Plan.generate_accounts`): all of this for every registry that can be reached.
-/

namespace CaptureIngest

/-- A registry that keeps schemas under their own keys answers with a schema of the key. -/
theorem Registry.WellFormed.key_of_find {r : Registry} (h : r.WellFormed) {key : Key}
    {schema : Schema} (hfind : r.find key = .ok schema) : schema.key = key := by
  unfold Registry.find at hfind
  cases hschema : r.schemas[key]? with
  | some s =>
    rw [hschema] at hfind
    obtain rfl := Except.ok.inj hfind
    exact h.keyed key s hschema
  | none =>
    rw [hschema] at hfind
    cases hrefusal : r.refusals[key]? <;> rw [hrefusal] at hfind <;> cases hfind

namespace Plan

variable {p : Plan} {r : Registry}

/-! ## Keys -/

/-- A plan asks for one key for each version and protocol. -/
theorem length_keys (p : Plan) : p.keys.length = p.versions.length * p.protocols.length := by
  unfold keys
  rw [List.length_flatMap]
  induction p.versions with
  | nil => simp
  | cons v versions ih =>
    rw [List.map_cons, List.sum_cons, ih, List.length_map, List.length_cons, Nat.succ_mul,
      Nat.add_comm]

/-- All keys of a plan are of its encoding. -/
theorem encoding_of_mem_keys {key : Key} (h : key ∈ p.keys) : key.encoding = p.encoding := by
  obtain ⟨v, -, hkey⟩ := List.mem_flatMap.mp h
  obtain ⟨q, -, rfl⟩ := List.mem_map.mp hkey
  rfl

/-! ## Two places -/

/-- The keys that have a schema are found, each with its schema and its source. -/
theorem forall₂_found (p : Plan) (r : Registry) (keys : List Key) :
    List.Forall₂
      (fun key item => ∃ schema, r.find key = .ok schema ∧
        item = (schema, Source.bind p.transport key p.options))
      (keys.filter fun key => (r.find key).isOk) (p.found r keys) := by
  induction keys with
  | nil => exact .nil
  | cons key keys ih =>
    unfold found
    cases h : r.find key with
    | ok schema =>
      rw [List.filter_cons_of_pos (by rw [h]; rfl), List.filterMap_cons_some (by rw [h])]
      exact .cons ⟨schema, h, rfl⟩ ih
    | error reason =>
      rw [List.filter_cons_of_neg (by rw [h]; exact Bool.false_ne_true),
        List.filterMap_cons_none (by rw [h])]
      exact ih

/-- The keys that have no schema are missing, each with the reason. -/
theorem forall₂_missing (r : Registry) (keys : List Key) :
    List.Forall₂ (fun key s => s.key = key ∧ r.find key = .error s.reason)
      (keys.filter fun key => !(r.find key).isOk) (missing r keys) := by
  induction keys with
  | nil => exact .nil
  | cons key keys ih =>
    unfold missing
    cases h : r.find key with
    | ok schema =>
      rw [List.filter_cons_of_neg (by rw [h]; exact Bool.false_ne_true),
        List.filterMap_cons_none (by rw [h])]
      exact ih
    | error reason =>
      rw [List.filter_cons_of_pos (by rw [h]; rfl), List.filterMap_cons_some (by rw [h])]
      exact .cons ⟨rfl, h⟩ ih

/-- A generation is a batch of what was found beside what is missing. -/
theorem generate_eq_map (p : Plan) (r : Registry) :
    p.generate r = (Definition.batch p.style (p.found r p.keys)).map fun definitions =>
      ⟨definitions, missing r p.keys⟩ := by
  unfold generate
  cases Definition.batch p.style (p.found r p.keys) <;> rfl

/-- A generation succeeds iff the names of what was found differ. -/
theorem generate_eq_ok_iff {g : Generation} :
    p.generate r = .ok g ↔
      g = ⟨(p.found r p.keys).map (Definition.ofItem p.style), missing r p.keys⟩ ∧
        g.definitions.Pairwise fun d e => d.name ≠ e.name := by
  rw [generate_eq_map]
  constructor
  · intro h
    cases hbatch : Definition.batch p.style (p.found r p.keys) with
    | error failure =>
      rw [hbatch] at h
      cases h
    | ok definitions =>
      rw [hbatch] at h
      obtain rfl := Except.ok.inj h
      obtain ⟨rfl, hnames⟩ := Definition.batch_eq_ok_iff.mp hbatch
      exact ⟨rfl, hnames⟩
  · rintro ⟨rfl, hnames⟩
    rw [Definition.batch_eq_ok_iff.mpr ⟨rfl, hnames⟩]
    rfl

/-- The definitions of a generation are those of the keys that have a schema, in order. -/
theorem forall₂_definitions {g : Generation} (hg : p.generate r = .ok g) :
    List.Forall₂
      (fun key d => ∃ schema, r.find key = .ok schema ∧
        d = ⟨schema, .bind p.transport key p.options, p.style⟩)
      (p.keys.filter fun key => (r.find key).isOk) g.definitions := by
  obtain ⟨rfl, -⟩ := generate_eq_ok_iff.mp hg
  apply List.forall₂_map_right_iff.mpr
  apply (p.forall₂_found r p.keys).imp
  rintro key item ⟨schema, hfind, rfl⟩
  exact ⟨schema, hfind, rfl⟩

/-- What a generation skips is the keys that have no schema, in order. -/
theorem forall₂_skipped {g : Generation} (hg : p.generate r = .ok g) :
    List.Forall₂ (fun key s => s.key = key ∧ r.find key = .error s.reason)
      (p.keys.filter fun key => !(r.find key).isOk) g.skipped := by
  obtain ⟨rfl, -⟩ := generate_eq_ok_iff.mp hg
  exact forall₂_missing r p.keys

/-- The schema of a key that a plan asks for is that of a definition. -/
theorem exists_mem_definitions {g : Generation} (hg : p.generate r = .ok g) {key : Key}
    (hkey : key ∈ p.keys) {schema : Schema} (hfind : r.find key = .ok schema) :
    ∃ d ∈ g.definitions, d.schema = schema := by
  obtain ⟨rfl, -⟩ := generate_eq_ok_iff.mp hg
  have hitem : (schema, Source.bind p.transport key p.options) ∈ p.found r p.keys := by
    refine List.mem_filterMap.mpr ⟨key, hkey, ?_⟩
    simp only [hfind]
  exact ⟨_, List.mem_map_of_mem hitem, rfl⟩

/-- A key that a plan asks for and that has no schema is skipped. -/
theorem mem_skipped {g : Generation} (hg : p.generate r = .ok g) {key : Key} (hkey : key ∈ p.keys)
    {reason : Failure} (hfind : r.find key = .error reason) : ⟨key, reason⟩ ∈ g.skipped := by
  obtain ⟨rfl, -⟩ := generate_eq_ok_iff.mp hg
  refine List.mem_filterMap.mpr ⟨key, hkey, ?_⟩
  simp only [hfind]

/-- A plan for one key generates the definition of its schema. -/
theorem generate_of_find_ok {key : Key} (hkeys : p.keys = [key]) {schema : Schema}
    (hfind : r.find key = .ok schema) :
    p.generate r = .ok ⟨[⟨schema, .bind p.transport key p.options, p.style⟩], []⟩ := by
  apply generate_eq_ok_iff.mpr
  refine ⟨?_, List.pairwise_singleton _ _⟩
  simp [hkeys, found, missing, hfind, Definition.ofItem]

/-- A plan for one key that has no schema skips it. -/
theorem generate_of_find_error {key : Key} (hkeys : p.keys = [key]) {reason : Failure}
    (hfind : r.find key = .error reason) : p.generate r = .ok ⟨[], [⟨key, reason⟩]⟩ := by
  apply generate_eq_ok_iff.mpr
  refine ⟨?_, List.Pairwise.nil⟩
  simp [hkeys, found, missing, hfind]

/-- A generation accounts for every key. -/
theorem length_definitions_add_skipped {g : Generation} (hg : p.generate r = .ok g) :
    g.definitions.length + g.skipped.length = p.versions.length * p.protocols.length := by
  have hkeys := List.length_eq_length_filter_add (l := p.keys) fun key => (r.find key).isOk
  rw [← (forall₂_definitions hg).length_eq, ← (forall₂_skipped hg).length_eq, ← p.length_keys, hkeys]

/-- A generation that fails does so as its batch does. -/
theorem batch_eq_error_of_generate {failure : Failure} (h : p.generate r = .error failure) :
    Definition.batch p.style (p.found r p.keys) = .error failure := by
  rw [generate_eq_map] at h
  cases hbatch : Definition.batch p.style (p.found r p.keys) with
  | error f =>
    rw [hbatch] at h
    exact congrArg Except.error (Except.error.inj h)
  | ok definitions =>
    rw [hbatch] at h
    cases h

/-- In a well-formed registry, the definitions of a plan differ in name iff no two of its keys
that have a schema share a protocol. -/
theorem pairwise_name_iff (hr : r.WellFormed) :
    (((p.found r p.keys).map (Definition.ofItem p.style)).Pairwise fun d e => d.name ≠ e.name) ↔
      p.keys.Pairwise fun a b =>
        ¬ (a.protocol = b.protocol ∧ (r.find a).isOk ∧ (r.find b).isOk) := by
  rw [List.pairwise_map]
  unfold found
  rw [List.pairwise_filterMap]
  apply List.Pairwise.iff_of_mem
  intro a b ha hb
  have hencoding : a.encoding = b.encoding :=
    (encoding_of_mem_keys ha).trans (encoding_of_mem_keys hb).symm
  cases hfa : r.find a with
  | error reason => simp [Except.isOk, Except.toBool]
  | ok s =>
    cases hfb : r.find b with
    | error reason => simp [Except.isOk, Except.toBool]
    | ok t =>
      -- the names are those of the keys, which are of one encoding
      have hname : (Definition.ofItem p.style (s, .bind p.transport a p.options)).name =
          (Definition.ofItem p.style (t, .bind p.transport b p.options)).name ↔
            a.protocol = b.protocol := by
        rw [Definition.name_eq_iff]
        simp only [Definition.ofItem, Definition.key, hr.key_of_find hfa, hr.key_of_find hfb,
          hencoding, and_true]
      simp [Except.isOk, Except.toBool, hname]

/-- A generation from a well-formed registry fails iff two of its keys that have a schema share a
protocol. -/
theorem exists_generate_eq_error_iff (hr : r.WellFormed) :
    (∃ failure, p.generate r = .error failure) ↔
      ¬ p.keys.Pairwise fun a b =>
        ¬ (a.protocol = b.protocol ∧ (r.find a).isOk ∧ (r.find b).isOk) := by
  rw [← pairwise_name_iff hr]
  constructor
  · rintro ⟨failure, hfailure⟩ hnames
    rw [generate_eq_ok_iff.mpr ⟨rfl, hnames⟩] at hfailure
    cases hfailure
  · intro hnames
    cases hg : p.generate r with
    | error failure => exact ⟨failure, rfl⟩
    | ok g =>
      obtain ⟨rfl, hdistinct⟩ := generate_eq_ok_iff.mp hg
      exact absurd hdistinct hnames

/-- Some two positions of a list are related iff the list is not pairwise unrelated. -/
theorem not_pairwise_iff {α : Type} {l : List α} {R : α → α → Prop} :
    (¬ l.Pairwise fun a b => ¬ R a b) ↔
      ∃ (i j : Nat) (a b : α), i < j ∧ l[i]? = some a ∧ l[j]? = some b ∧ R a b := by
  rw [List.pairwise_iff_getElem]
  constructor
  · intro h
    push Not at h
    obtain ⟨i, j, hi, hj, hij, hR⟩ := h
    exact ⟨i, j, l[i], l[j], hij, List.getElem?_eq_getElem hi, List.getElem?_eq_getElem hj, hR⟩
  · rintro ⟨i, j, a, b, hij, ha, hb, hR⟩ h
    obtain ⟨hi, rfl⟩ := List.getElem?_eq_some_iff.mp ha
    obtain ⟨hj, rfl⟩ := List.getElem?_eq_some_iff.mp hb
    exact h i j hi hj hij hR

/-- **Accounts**: in every registry that can be reached, what a plan asks for is generated if it
has a schema and skipped otherwise, each key once and in order. A generation fails iff two of the
keys that have a schema share a protocol, and then for the name that they share. -/
theorem generate_accounts (run : Run) (p : Plan) :
    (∀ g, p.generate run.registry = .ok g →
      List.Forall₂
        (fun key d => ∃ schema, run.registry.find key = .ok schema ∧
          d = ⟨schema, .bind p.transport key p.options, p.style⟩)
        (p.keys.filter fun key => (run.registry.find key).isOk) g.definitions ∧
      List.Forall₂ (fun key s => s.key = key ∧ run.registry.find key = .error s.reason)
        (p.keys.filter fun key => !(run.registry.find key).isOk) g.skipped ∧
      g.definitions.length + g.skipped.length = p.versions.length * p.protocols.length) ∧
    ((∃ failure, p.generate run.registry = .error failure) ↔
      ∃ (i j : Nat) (a b : Key), i < j ∧ p.keys[i]? = some a ∧ p.keys[j]? = some b ∧
        a.protocol = b.protocol ∧ (run.registry.find a).isOk ∧ (run.registry.find b).isOk) ∧
    ∀ failure, p.generate run.registry = .error failure →
      ∃ name first second, failure = .sharedName name first second := by
  refine ⟨fun g hg => ?_, ?_, ?_⟩
  · exact ⟨forall₂_definitions hg, forall₂_skipped hg, length_definitions_add_skipped hg⟩
  · rw [exists_generate_eq_error_iff run.wellFormed_registry]
    exact not_pairwise_iff
  · intro failure h
    obtain ⟨before, d, after, first, -, -, -, -, hfailure⟩ :=
      Definition.exists_of_batch_eq_error (batch_eq_error_of_generate h)
    exact ⟨_, _, _, hfailure⟩

end Plan

end CaptureIngest
