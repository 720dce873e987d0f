/-!
# Schema versions

A version names one revision of the record layouts. It becomes part of file patterns and of keys,
so it is made of ASCII letters, digits, dots, underscores and hyphens only, and is not empty.
-/

namespace CaptureIngest

/-- The characters of a version. -/
def Version.isVersionChar (c : Char) : Bool :=
  c.isAlphanum || c == '.' || c == '_' || c == '-'

/-- Whether a text is a version. -/
def Version.isVersionText (s : String) : Bool :=
  !s.toList.isEmpty && s.toList.all isVersionChar

/-- A revision of the record layouts. -/
structure Version where
  /-- The version as it is written. -/
  text : String
  /-- It has the form of a version. -/
  wellFormed : Version.isVersionText text = true
  deriving DecidableEq, Repr

namespace Version

/-- The version of exactly this text, if the text is one. -/
def ofString? (s : String) : Option Version :=
  if h : isVersionText s = true then some ⟨s, h⟩ else none

/-- The version whose layouts are built in. -/
def v30 : Version :=
  ⟨"v30", by decide⟩

instance : Inhabited Version := ⟨v30⟩

/-- A version is told by its text. -/
theorem ext_text {v w : Version} (h : v.text = w.text) : v = w := by
  cases v; cases w; simp_all

/-- A version is made of its own text only. -/
theorem ofString?_eq_some_iff {s : String} {v : Version} : ofString? s = some v ↔ v.text = s := by
  unfold ofString?
  split
  · next h =>
    rw [Option.some.injEq]
    exact ⟨fun e => e ▸ rfl, fun e => ext_text e.symm⟩
  · next h =>
    simp only [reduceCtorEq, false_iff]
    rintro rfl
    exact h v.wellFormed

end Version

end CaptureIngest
