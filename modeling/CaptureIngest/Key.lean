import Std.Data.TreeMap.Lemmas
import CaptureIngest.Protocol
import CaptureIngest.Version

/-!
# Schema keys

A key says which schema is meant: that of one protocol, in one version, for one encoding. Keys
are ordered by protocol (in the order of `Protocol.all`), then by the characters of the version,
then by encoding, and a key is shown as `protocol/version/encoding`.
-/

namespace CaptureIngest

/-- The identity of a schema. -/
structure Key where
  /-- The family of records. -/
  protocol : Protocol
  /-- The revision of its layout. -/
  version : Version
  /-- The encoding of its captures. -/
  encoding : Encoding
  deriving DecidableEq, Repr, Inhabited

namespace Key

/-- The key as it is shown in listings and messages. -/
def render (k : Key) : String :=
  k.protocol.name ++ "/" ++ k.version.text ++ "/" ++ k.encoding.name

/-! ## The order of keys -/

instance : Ord Key where
  compare := compareLex (compareOn fun k => k.protocol.rank)
    (compareLex (compareOn fun k => k.version.text) (compareOn fun k => k.encoding.rank))

instance : Std.TransOrd Key :=
  inferInstanceAs (Std.TransCmp (compareLex (compareOn fun k : Key => k.protocol.rank)
    (compareLex (compareOn fun k => k.version.text) (compareOn fun k => k.encoding.rank))))

/-- Two protocols do not share a rank. -/
theorem protocol_rank_inj {p q : Protocol} (h : p.rank = q.rank) : p = q := by
  revert p q
  have table : ∀ p ∈ Protocol.all, ∀ q ∈ Protocol.all, p.rank = q.rank → p = q := by decide
  exact fun {p q} h => table p p.mem_all q q.mem_all h

/-- Two encodings do not share a rank. -/
theorem encoding_rank_inj {e f : Encoding} (h : e.rank = f.rank) : e = f := by
  cases e <;> cases f <;> simp_all [Encoding.rank]

/-- Keys are compared part by part. -/
theorem compare_eq_lex (a b : Key) :
    compare a b = compareLex (compareOn fun k : Key => k.protocol.rank)
      (compareLex (compareOn fun k => k.version.text) (compareOn fun k => k.encoding.rank)) a b :=
  rfl

instance : Std.LawfulEqOrd Key where
  eq_of_compare {a b} h := by
    rw [compare_eq_lex, compareLex_eq_eq, compareLex_eq_eq] at h
    obtain ⟨hp, hv, he⟩ := h
    have hp := protocol_rank_inj (Std.LawfulEqOrd.eq_of_compare hp)
    have hv := Version.ext_text (Std.LawfulEqOrd.eq_of_compare hv)
    have he := encoding_rank_inj (Std.LawfulEqOrd.eq_of_compare he)
    cases a; cases b; simp_all

end Key

end CaptureIngest
