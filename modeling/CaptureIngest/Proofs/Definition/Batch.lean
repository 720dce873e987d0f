import CaptureIngest.Definition
import Mathlib.Data.List.Basic

/-!
# Batches of definitions

A batch is accepted iff its definitions have different names. The check goes through the
definitions in order and keeps those it has passed, so a refusal is about the first definition
whose name was there already.

* `Definition.ofItem style item`: the definition of one item of a batch.
* **The check** (`checkNames_eq_ok_iff`, `exists_of_checkNames_eq_error`): it passes iff no name is
  among the earlier ones and none is repeated; otherwise it names the definition at which it
  stopped and one before it.
* **Batches** (`batch_eq_ok_iff`, `exists_of_batch_eq_error`): the same of a whole batch.
* **Names** (`name_eq_iff`): two definitions have one name iff they are of one protocol and one
  encoding; version, source and style play no part.
* **Outcomes** (`batch_exact`): a batch is accepted iff no two of its items are of one protocol and
  one encoding, and is refused for the first item that repeats those of an earlier one.
-/

namespace CaptureIngest.Definition

/-! ## Names -/

/-- Two definitions have one name iff they are of one protocol and one encoding. -/
theorem name_eq_iff {d e : Definition} :
    d.name = e.name ↔ d.key.protocol = e.key.protocol ∧ d.key.encoding = e.key.encoding := by
  constructor
  · exact Protocol.definitionName_inj
  · rintro ⟨hprotocol, hencoding⟩
    exact congrArg₂ Protocol.definitionName hprotocol hencoding

/-! ## The check -/

/-- The check passes iff no name is among the earlier ones and none is repeated. -/
theorem checkNames_eq_ok_iff {earlier ds : List Definition} :
    checkNames earlier ds = .ok () ↔
      (∀ e ∈ earlier, ∀ d ∈ ds, e.name ≠ d.name) ∧ ds.Pairwise fun d e => d.name ≠ e.name := by
  induction ds generalizing earlier with
  | nil => simp [checkNames]
  | cons d ds ih =>
    unfold checkNames
    cases hfind : earlier.find? fun e => e.name == d.name with
    | some first =>
      obtain ⟨hmem, hname⟩ : first ∈ earlier ∧ first.name = d.name :=
        ⟨List.mem_of_find?_eq_some hfind, by simpa using List.find?_some hfind⟩
      simp only [reduceCtorEq, false_iff]
      intro h
      exact h.1 first hmem d List.mem_cons_self hname
    | none =>
      have hnew : ∀ e ∈ earlier, e.name ≠ d.name := by simpa using hfind
      simp only [ih, List.pairwise_cons, List.forall_mem_append, List.forall_mem_singleton,
        List.forall_mem_cons]
      constructor
      · rintro ⟨⟨hearlier, hd⟩, hds⟩
        exact ⟨fun e he => ⟨hnew e he, hearlier e he⟩, hd, hds⟩
      · rintro ⟨hearlier, hd, hds⟩
        exact ⟨⟨fun e he => (hearlier e he).2, hd⟩, hds⟩

/-- With no earlier names, the check passes iff no name is repeated. -/
theorem checkNames_nil_eq_ok_iff {ds : List Definition} :
    checkNames [] ds = .ok () ↔ ds.Pairwise fun d e => d.name ≠ e.name := by
  rw [checkNames_eq_ok_iff]
  exact and_iff_right fun e he => absurd he List.not_mem_nil

/-- A check that fails stops at a definition whose name one before it has, and names both. -/
theorem exists_of_checkNames_eq_error {earlier ds : List Definition} {failure : Failure}
    (h : checkNames earlier ds = .error failure) :
    ∃ before d after first, ds = before ++ d :: after ∧ checkNames earlier before = .ok () ∧
      first ∈ earlier ++ before ∧ first.name = d.name ∧
      failure = .sharedName d.name first.key d.key := by
  induction ds generalizing earlier with
  | nil => simp [checkNames] at h
  | cons d ds ih =>
    unfold checkNames at h
    cases hfind : earlier.find? fun e => e.name == d.name with
    | some first =>
      rw [hfind] at h
      refine ⟨[], d, ds, first, rfl, rfl, ?_, by simpa using List.find?_some hfind, ?_⟩
      · rw [List.append_nil]
        exact List.mem_of_find?_eq_some hfind
      · exact (Except.error.inj h).symm
    | none =>
      rw [hfind] at h
      obtain ⟨before, e, after, first, rfl, hbefore, hmem, hname, hfailure⟩ := ih h
      refine ⟨d :: before, e, after, first, rfl, ?_, ?_, hname, hfailure⟩
      · unfold checkNames
        rw [hfind]
        exact hbefore
      · rwa [List.append_assoc, List.singleton_append] at hmem

/-! ## Batches -/

/-- The definition of one item of a batch. -/
def ofItem (style : Style) (item : Schema × Source) : Definition :=
  ⟨item.1, item.2, style⟩

/-- A batch is the definitions of its items, if their names pass the check. -/
theorem batch_eq_map (style : Style) (items : List (Schema × Source)) :
    batch style items =
      (checkNames [] (items.map (ofItem style))).map fun _ => items.map (ofItem style) := by
  show (checkNames [] (items.map (ofItem style)) >>= fun _ => pure (items.map (ofItem style))) = _
  cases checkNames [] (items.map (ofItem style)) <;> rfl

/-- A batch is accepted iff its names differ, and is then the definitions of its items. -/
theorem batch_eq_ok_iff {style : Style} {items : List (Schema × Source)} {ds : List Definition} :
    batch style items = .ok ds ↔
      ds = items.map (ofItem style) ∧ ds.Pairwise fun d e => d.name ≠ e.name := by
  rw [batch_eq_map]
  constructor
  · intro h
    cases hc : checkNames [] (items.map (ofItem style)) with
    | error failure =>
      rw [hc] at h
      cases h
    | ok u =>
      rw [hc] at h
      obtain rfl := Except.ok.inj h
      exact ⟨rfl, checkNames_nil_eq_ok_iff.mp hc⟩
  · rintro ⟨rfl, hnames⟩
    rw [checkNames_nil_eq_ok_iff.mpr hnames]
    rfl

/-- The definitions of a batch are in its style. -/
theorem style_of_mem_batch {style : Style} {items : List (Schema × Source)} {ds : List Definition}
    (h : batch style items = .ok ds) : ∀ d ∈ ds, d.style = style := by
  obtain ⟨rfl, -⟩ := batch_eq_ok_iff.mp h
  intro d hd
  obtain ⟨item, -, rfl⟩ := List.mem_map.mp hd
  rfl

/-- A batch that is refused names a definition and one before it of the same name. -/
theorem exists_of_batch_eq_error {style : Style} {items : List (Schema × Source)}
    {failure : Failure} (h : batch style items = .error failure) :
    ∃ before d after first, items.map (ofItem style) = before ++ d :: after ∧
      before.Pairwise (fun d e => d.name ≠ e.name) ∧ first ∈ before ∧ first.name = d.name ∧
      failure = .sharedName d.name first.key d.key := by
  rw [batch_eq_map] at h
  cases hc : checkNames [] (items.map (ofItem style)) with
  | ok u =>
    rw [hc] at h
    cases h
  | error f =>
    rw [hc] at h
    obtain rfl := Except.error.inj h
    obtain ⟨before, d, after, first, hds, hbefore, hmem, hname, rfl⟩ :=
      exists_of_checkNames_eq_error hc
    exact ⟨before, d, after, first, hds, checkNames_nil_eq_ok_iff.mp hbefore, hmem, hname, rfl⟩

/-! ## Outcomes -/

/-- Two items of a batch are of one protocol and one encoding. -/
def Clash (a b : Schema × Source) : Prop :=
  a.1.key.protocol = b.1.key.protocol ∧ a.1.key.encoding = b.1.key.encoding

/-- Two items clash iff their definitions have one name. -/
theorem name_ofItem_eq_iff {style : Style} {a b : Schema × Source} :
    (ofItem style a).name = (ofItem style b).name ↔ Clash a b :=
  name_eq_iff

/-- Names differ among the definitions of some items iff no two of the items clash. -/
theorem pairwise_name_map_iff {style : Style} {items : List (Schema × Source)} :
    ((items.map (ofItem style)).Pairwise fun d e => d.name ≠ e.name) ↔
      items.Pairwise fun a b => ¬ Clash a b := by
  simp only [List.pairwise_map, ne_eq, name_ofItem_eq_iff]

/-- An item that clashes with one of some items that do not clash among themselves clashes with no
other of them. -/
theorem not_clash_of_pairwise {before between : List (Schema × Source)}
    {first second : Schema × Source}
    (h : (before ++ first :: between).Pairwise fun a b => ¬ Clash a b)
    (hclash : Clash first second) : ∀ item ∈ before ++ between, ¬ Clash item second := by
  obtain ⟨-, hbehind, hbefore⟩ := List.pairwise_append.mp h
  obtain ⟨hbetween, -⟩ := List.pairwise_cons.mp hbehind
  intro item hitem hother
  have hfirst : Clash item first :=
    ⟨hother.1.trans hclash.1.symm, hother.2.trans hclash.2.symm⟩
  rcases List.mem_append.mp hitem with hitem | hitem
  · exact hbefore item hitem first List.mem_cons_self hfirst
  · exact hbetween item hitem ⟨hfirst.1.symm, hfirst.2.symm⟩

/-- **Outcomes**: a batch is accepted, with one definition for each item and in order, iff no two
items are of one protocol and one encoding. Otherwise the first item that is of the protocol and
the encoding of an earlier one is refused, together with the only such earlier item. -/
theorem batch_exact (style : Style) (items : List (Schema × Source)) :
    (batch style items = .ok (items.map fun item => ⟨item.1, item.2, style⟩) ↔
      items.Pairwise fun a b => ¬ Clash a b) ∧
    (¬ items.Pairwise (fun a b => ¬ Clash a b) →
      ∃ before first between second after,
        items = before ++ first :: between ++ second :: after ∧
        (before ++ first :: between).Pairwise (fun a b => ¬ Clash a b) ∧
        Clash first second ∧ (∀ item ∈ before ++ between, ¬ Clash item second) ∧
        first.1.definitionName = second.1.definitionName ∧
        batch style items =
          .error (.sharedName second.1.definitionName first.1.key second.1.key)) := by
  have haccepted : batch style items = .ok (items.map (ofItem style)) ↔
      items.Pairwise fun a b => ¬ Clash a b := by
    rw [batch_eq_ok_iff, pairwise_name_map_iff]
    exact and_iff_right rfl
  refine ⟨haccepted, fun hclash => ?_⟩
  cases hbatch : batch style items with
  | ok ds =>
    obtain ⟨rfl, hnames⟩ := batch_eq_ok_iff.mp hbatch
    exact absurd (pairwise_name_map_iff.mp hnames) hclash
  | error failure =>
    obtain ⟨ds, d, es, e, hitems, hds, he, hname, rfl⟩ := exists_of_batch_eq_error hbatch
    -- the definitions of the prefix and the refused one are those of items
    obtain ⟨passed, rest, rfl, rfl, hrest⟩ := List.map_eq_append_iff.mp hitems
    obtain ⟨second, after, rfl, rfl, -⟩ := List.map_eq_cons_iff.mp hrest
    obtain ⟨first, hfirst, rfl⟩ := List.mem_map.mp he
    obtain ⟨before, between, rfl⟩ := List.append_of_mem hfirst
    have hpassed := pairwise_name_map_iff.mp hds
    have hboth := name_ofItem_eq_iff.mp hname
    exact ⟨before, first, between, second, after, rfl, hpassed, hboth,
      not_clash_of_pairwise hpassed hboth, hname, rfl⟩

end CaptureIngest.Definition
