import CaptureIngest.Proofs.Registry.Run
import CaptureIngest.Proofs.Source.Files
import CaptureIngest.Proofs.Text.Quoted
import Mathlib.Data.List.Destutter

/-!
# Listings of a registry are exact and in order

A registry lists its keys in the order of its maps, and the versions of a protocol by dropping those
that repeat their neighbour. Both are told here by an order that does not mention the maps.

* `Version.bytes`: the bytes of a version as it is written.
* `Key.Precedes`: the order of keys, by protocol, then by the bytes of the version, then by encoding. It
  is what the maps of a registry go by (`Key.precedes_of_compare`).
* **Neighbours** (`eraseReps_eq_destutter`, `pairwise_eraseReps`): to drop repeated neighbours of a list
  in order leaves each of its members once.
* **Both sides** (`Registry.find_eq_ok_iff`, `Registry.find_eq_rejected_iff`): what is loaded and what is
  rejected is told by the answers.
* **Listings** (`Run.listings_exact`): all listings of every registry that can be reached.
-/

namespace CaptureIngest

/-! ## The order of versions -/

namespace Version

/-- The bytes of a version as it is written. -/
def bytes (v : Version) : List UInt8 :=
  v.text.toByteArray.data.toList

/-- The characters of versions come before the end of the alphabet. -/
theorem toNat_lt_of_isVersionChar {c : Char} (h : isVersionChar c = true) : c.val.toNat < 128 := by
  have hlast : c ≤ 'z' := by
    simp only [isVersionChar, Char.isAlphanum, Bool.or_eq_true, Text.isAlpha_iff, Text.isDigit_iff,
      beq_iff_eq] at h
    rcases h with ((((⟨-, hupper⟩ | ⟨-, hlower⟩) | ⟨-, hdigit⟩) | rfl) | rfl) | rfl
    · exact Char.le_trans hupper (by decide)
    · exact hlower
    · exact Char.le_trans hdigit (by decide)
    all_goals decide
  exact Nat.lt_of_le_of_lt (UInt32.le_iff_toNat_le.mp hlast) (by decide)

/-- Characters below 128 are written in one byte, which is their number. -/
theorem utf8EncodeChar_of_lt {c : Char} (h : c.val.toNat < 128) :
    String.utf8EncodeChar c = [c.val.toUInt8] := by
  apply String.utf8EncodeChar_eq_singleton
  rw [Char.utf8Size_eq_one_iff, UInt32.le_iff_toNat_le]
  exact Nat.le_of_lt_succ h

/-- Such texts are in the order of their bytes. -/
theorem flatMap_utf8EncodeChar_lt {cs ds : List Char} (hcs : ∀ c ∈ cs, c.val.toNat < 128)
    (hds : ∀ d ∈ ds, d.val.toNat < 128) (h : cs < ds) :
    cs.flatMap String.utf8EncodeChar < ds.flatMap String.utf8EncodeChar := by
  induction cs generalizing ds with
  | nil =>
    cases ds with
    | nil => exact absurd h (List.lt_irrefl [])
    | cons d ds =>
      rw [List.flatMap_cons, utf8EncodeChar_of_lt (hds d List.mem_cons_self)]
      exact List.nil_lt_cons _ _
  | cons c cs ih =>
    cases ds with
    | nil => exact absurd h (List.not_lt_nil _)
    | cons d ds =>
      obtain ⟨hc, hcs⟩ := List.forall_mem_cons.mp hcs
      obtain ⟨hd, hrests⟩ := List.forall_mem_cons.mp hds
      rw [List.flatMap_cons, List.flatMap_cons, utf8EncodeChar_of_lt hc, utf8EncodeChar_of_lt hd]
      rcases List.cons_lt_cons_iff.mp h with hlt | ⟨rfl, hrest⟩
      · apply List.cons_lt_cons_iff.mpr
        left
        rw [UInt8.lt_iff_toNat_lt, UInt32.toNat_toUInt8, UInt32.toNat_toUInt8]
        have hval : c.val.toNat < d.val.toNat := UInt32.lt_iff_toNat_lt.mp hlt
        omega
      · exact List.cons_lt_cons_iff.mpr (.inr ⟨rfl, ih hcs hrests hrest⟩)

/-- The order of versions as texts is that of their bytes. -/
theorem bytes_lt_of_text_lt {v w : Version} (h : v.text < w.text) : v.bytes < w.bytes := by
  have hchars : ∀ u : Version, ∀ c ∈ u.text.toList, c.val.toNat < 128 := by
    intro u c hc
    apply toNat_lt_of_isVersionChar
    by_contra hchar
    exact u.not_mem_text (Bool.eq_false_iff.mpr hchar) hc
  have hbytes : ∀ u : Version, u.bytes = u.text.toList.flatMap String.utf8EncodeChar := by
    intro u
    rw [bytes, ← String.utf8Encode_toList, List.utf8Encode, List.data_toByteArray,
      List.toList_toArray]
  rw [hbytes, hbytes]
  exact flatMap_utf8EncodeChar_lt (hchars v) (hchars w) h

end Version

/-! ## The order of keys -/

/-- The order of keys: by protocol, as protocols are declared, then by the bytes of the version, then by
encoding. -/
inductive Key.Precedes (a b : Key) : Prop
  /-- The protocol comes first. -/
  | protocol : a.protocol.rank < b.protocol.rank → Precedes a b
  /-- The protocol is the same and the version comes first. -/
  | version : a.protocol = b.protocol → a.version.bytes < b.version.bytes → Precedes a b
  /-- Protocol and version are the same and the encoding comes first. -/
  | encoding : a.protocol = b.protocol → a.version = b.version →
    a.encoding.rank < b.encoding.rank → Precedes a b

namespace Key

/-- The maps of a registry go by the order of keys. -/
theorem precedes_of_compare {a b : Key} (h : compare a b = .lt) : a.Precedes b := by
  rw [compare_eq_lex] at h
  simp only [compareLex, compareOn, Ordering.then_eq_lt, Nat.compare_eq_lt,
    Std.LawfulEqOrd.compare_eq_iff_eq] at h
  rcases h with hprotocol | ⟨hprotocol, hversion | ⟨hversion, hencoding⟩⟩
  · exact .protocol hprotocol
  · exact .version (protocol_rank_inj hprotocol)
      (Version.bytes_lt_of_text_lt (compareOfLessAndEq_eq_lt.mp hversion))
  · exact .encoding (protocol_rank_inj hprotocol) (Version.ext_text hversion) hencoding

/-- No key precedes itself. -/
theorem Precedes.ne {a b : Key} (h : a.Precedes b) : a ≠ b := by
  rintro rfl
  cases h with
  | protocol h => exact Nat.lt_irrefl _ h
  | version _ h => exact List.lt_irrefl _ h
  | encoding _ _ h => exact Nat.lt_irrefl _ h

/-- Of two keys of one protocol in order, the versions are the same or in order. -/
theorem Precedes.version_eq_or_lt {a b : Key} (h : a.Precedes b) (hprotocol : a.protocol = b.protocol) :
    a.version = b.version ∨ a.version.bytes < b.version.bytes := by
  cases h with
  | protocol h =>
    rw [hprotocol] at h
    exact absurd h (Nat.lt_irrefl _)
  | version _ h => exact .inr h
  | encoding _ h _ => exact .inl h

end Key

/-! ## Neighbours -/

section

variable {α : Type} [DecidableEq α]

/-- Of neighbours that repeat the first is kept. -/
theorem eraseReps_eq_destutter (as : List α) : as.eraseReps = as.destutter (· ≠ ·) := by
  have hloop : ∀ (as : List α) (a : α) (acc : List α),
      List.eraseRepsBy.loop (· == ·) a as acc = acc.reverse ++ as.destutter' (· ≠ ·) a := by
    intro as
    induction as with
    | nil =>
      intro a acc
      simp [List.eraseRepsBy.loop]
    | cons b as ih =>
      intro a acc
      rw [List.eraseRepsBy.loop, List.destutter'_cons]
      by_cases hab : a = b
      · simp [hab, ih]
      · have hbeq : (a == b) = false := by simpa using hab
        simp [hab, hbeq, ih]
  cases as with
  | nil => rfl
  | cons a as => exact hloop as a []

/-- Nothing is lost by that. -/
theorem mem_eraseReps {a : α} {as : List α} : a ∈ as.eraseReps ↔ a ∈ as := by
  have hloop : ∀ (as : List α) (b : α), a ∈ as.destutter' (· ≠ ·) b ↔ a = b ∨ a ∈ as := by
    intro as
    induction as with
    | nil => intro b; simp
    | cons c as ih =>
      intro b
      rw [List.destutter'_cons]
      by_cases hbc : b = c
      · simp [hbc, ih]
      · simp [hbc, ih]
  rw [eraseReps_eq_destutter]
  cases as with
  | nil => rfl
  | cons b as => rw [List.destutter_cons', hloop, List.mem_cons]

/-- **Neighbours**: a list in order in which only neighbours repeat is left in strict order. -/
theorem pairwise_eraseReps {R : α → α → Prop} (htrans : ∀ {a b c}, R a b → R b c → R a c)
    {as : List α} (h : as.Pairwise fun a b => a = b ∨ R a b) : as.eraseReps.Pairwise R := by
  rw [eraseReps_eq_destutter]
  have hkept := (h.sublist (as.destutter_sublist (· ≠ ·))).isChain
  have hdiffer := as.isChain_destutter (· ≠ ·)
  have hchain : (as.destutter (· ≠ ·)).IsChain R := by
    rw [List.isChain_iff_getElem]
    intro i hi
    exact (hkept.getElem i hi).resolve_left (hdiffer.getElem i hi)
  have : Trans R R R := ⟨htrans⟩
  exact hchain.pairwise

end

/-! ## Both sides -/

namespace Registry

/-- What is loaded is what a look-up finds. -/
theorem find_eq_ok_iff {r : Registry} {key : Key} {schema : Schema} :
    r.find key = .ok schema ↔ r.schemas[key]? = some schema := by
  unfold find
  cases r.schemas[key]? with
  | some s => simp
  | none => cases r.refusals[key]? <;> simp

/-- What is rejected is what a look-up is refused for. -/
theorem find_eq_rejected_iff {r : Registry} (hr : r.WellFormed) {key : Key} {reason : Defect} :
    r.find key = .error (.rejected key reason) ↔ r.refusals[key]? = some reason := by
  unfold find
  cases hschema : r.schemas[key]? with
  | some schema =>
    -- what is loaded is not rejected
    have hloaded : key ∈ r.schemas := Std.TreeMap.mem_iff_isSome_getElem?.mpr (by simp [hschema])
    have hrefused : r.refusals[key]? = none :=
      Std.TreeMap.getElem?_eq_none fun hmem => hr.apart key ⟨hloaded, hmem⟩
    simp [hrefused]
  | none => cases r.refusals[key]? <;> simp

/-- The keys that are listed are those under which a schema is found. -/
theorem mem_keys_iff {r : Registry} {key : Key} :
    key ∈ r.keys ↔ ∃ schema, r.find key = .ok schema := by
  simp only [find_eq_ok_iff, keys, Std.TreeMap.mem_keys, Std.TreeMap.mem_iff_isSome_getElem?,
    Option.isSome_iff_exists]

/-- They are in the order of keys. -/
theorem pairwise_keys (r : Registry) : r.keys.Pairwise Key.Precedes :=
  r.schemas.ordered_keys.imp Key.precedes_of_compare

/-- The rejections that are listed are those that look-ups are refused for. -/
theorem mem_rejections_iff {r : Registry} (hr : r.WellFormed) {key : Key} {reason : Defect} :
    (key, reason) ∈ r.rejections ↔ r.find key = .error (.rejected key reason) := by
  rw [find_eq_rejected_iff hr, rejections, Std.TreeMap.mem_toList_iff_getElem?_eq_some]

/-- They are in the order of keys. -/
theorem pairwise_rejections (r : Registry) :
    (r.rejections.map (·.1)).Pairwise Key.Precedes :=
  List.pairwise_map.mpr (r.refusals.ordered_keys_toList.imp Key.precedes_of_compare)

/-- The versions that are listed are those with a schema in some encoding. -/
theorem mem_versions_iff {r : Registry} {p : Protocol} {v : Version} :
    v ∈ r.versions p ↔ ∃ e, ∃ schema, r.find ⟨p, v, e⟩ = .ok schema := by
  simp only [versions, mem_eraseReps, List.mem_map, List.mem_filter, beq_iff_eq]
  constructor
  · rintro ⟨⟨q, w, e⟩, ⟨hkey, rfl⟩, rfl⟩
    exact ⟨e, mem_keys_iff.mp hkey⟩
  · rintro ⟨e, hfound⟩
    exact ⟨⟨p, v, e⟩, ⟨mem_keys_iff.mpr hfound, rfl⟩, rfl⟩

/-- They are in the order of their bytes: in the order of keys, the two encodings of a version are
neighbours. -/
theorem pairwise_versions (r : Registry) (p : Protocol) :
    (r.versions p).Pairwise fun v w => v.bytes < w.bytes := by
  apply pairwise_eraseReps (R := fun v w : Version => v.bytes < w.bytes) List.lt_trans
  rw [List.pairwise_map]
  apply (r.pairwise_keys.sublist List.filter_sublist).imp_of_mem
  intro a b ha hb hab
  have hprotocol : ∀ {k : Key}, k ∈ r.keys.filter (fun k => k.protocol == p) → k.protocol = p :=
    fun hk => by simpa using (List.mem_filter.mp hk).2
  exact hab.version_eq_or_lt ((hprotocol ha).trans (hprotocol hb).symm)

end Registry

/-! ## Listings -/

/-- **Listings** are exact and in order, whatever a registry has been through.

The keys are those under which a schema is found, the rejections those that look-ups are refused for,
each of them once and in the order of keys. The versions of a protocol are those with a schema in one
encoding or the other, each of them once and in the order of their bytes. -/
theorem Run.listings_exact (run : Run) :
    (∀ key, key ∈ run.registry.keys ↔ ∃ schema, run.registry.find key = .ok schema) ∧
    run.registry.keys.Nodup ∧ run.registry.keys.Pairwise Key.Precedes ∧
    run.registry.size = run.registry.keys.length ∧
    (∀ key reason, (key, reason) ∈ run.registry.rejections ↔
      run.registry.find key = .error (.rejected key reason)) ∧
    (run.registry.rejections.map (·.1)).Nodup ∧
    (run.registry.rejections.map (·.1)).Pairwise Key.Precedes ∧
    ∀ p, (run.registry.versions p).Pairwise (fun v w => v.bytes < w.bytes) ∧
      ∀ v, v ∈ run.registry.versions p ↔
        ∃ e, ∃ schema, run.registry.find ⟨p, v, e⟩ = .ok schema := by
  have hkeys := run.registry.pairwise_keys
  have hrejections := run.registry.pairwise_rejections
  refine ⟨fun key => Registry.mem_keys_iff, hkeys.imp Key.Precedes.ne, hkeys, ?_,
    fun key reason => Registry.mem_rejections_iff run.wellFormed_registry,
    hrejections.imp Key.Precedes.ne, hrejections, fun p => ?_⟩
  · exact run.registry.schemas.length_keys.symm
  · exact ⟨run.registry.pairwise_versions p, fun v => Registry.mem_versions_iff⟩

end CaptureIngest
