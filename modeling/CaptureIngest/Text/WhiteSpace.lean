/-!
# White space and letter case in names

Names that people type — of a transport, an encoding, a protocol, a version — may stand in
white space, and most of them in any letter case. White space is the Unicode property
`White_Space`; letter case is folded for the ASCII letters only.

* `trimmed_of_no_blank_end`: trimming keeps a text without white space at its ends.
* `trimmed_append_of_blank`, `trimmed_append_of_blank_left`: white space that is put around a text is
  trimmed.
* `map_trimmed`: characters may be replaced before or after trimming, if white space stays white space.
-/

namespace CaptureIngest.Text

/-- The characters with the Unicode property `White_Space`. -/
def isWhiteSpace (c : Char) : Bool :=
  let n := c.toNat
  (9 ≤ n && n ≤ 13) || n == 0x20 || n == 0x85 || n == 0xA0 || n == 0x1680 ||
    (0x2000 ≤ n && n ≤ 0x200A) || n == 0x2028 || n == 0x2029 || n == 0x202F ||
    n == 0x205F || n == 0x3000

/-- A list of characters without the white space at its two ends. -/
def trimmed (cs : List Char) : List Char :=
  ((cs.dropWhile isWhiteSpace).reverse.dropWhile isWhiteSpace).reverse

/-- A text without the white space at its two ends. -/
def trim (s : String) : String :=
  String.ofList (trimmed s.toList)

/-- A text with its ASCII letters in lower case and all else unchanged. -/
def foldCase (s : String) : String :=
  s.map Char.toLower

/-- The form of a name under which its spellings are looked up. -/
def nameKey (s : String) : String :=
  foldCase (trim s)

/-! ## What trimming keeps -/

/-- There is nothing to trim from a text that neither begins nor ends with a blank. -/
theorem trimmed_of_no_blank_end {cs : List Char} (first : ∀ c ∈ cs.head?, isWhiteSpace c = false)
    (last : ∀ c ∈ cs.getLast?, isWhiteSpace c = false) : trimmed cs = cs := by
  have keep : ∀ ds : List Char, (∀ c ∈ ds.head?, isWhiteSpace c = false) →
      ds.dropWhile isWhiteSpace = ds := by
    intro ds h
    cases ds with
    | nil => rfl
    | cons d ds => simp [h d (by simp)]
  rw [trimmed, keep cs first, keep cs.reverse (by simpa using last), List.reverse_reverse]

/-! ## What trimming takes away -/

/-- White space behind a text is trimmed. -/
theorem trimmed_append_of_blank (cs : List Char) {after : List Char}
    (h : ∀ c ∈ after, isWhiteSpace c = true) : trimmed (cs ++ after) = trimmed cs := by
  rw [trimmed, trimmed, List.dropWhile_append]
  split
  · next hempty =>
    have hafter : after.dropWhile isWhiteSpace = [] := by
      rw [← List.append_nil after, List.dropWhile_append_of_pos h, List.dropWhile_nil]
    rw [List.isEmpty_iff.mp hempty, hafter]
  · have hreverse : ∀ c ∈ after.reverse, isWhiteSpace c = true :=
      fun c hc => h c (List.mem_reverse.mp hc)
    rw [List.reverse_append, List.dropWhile_append_of_pos hreverse]

/-- White space in front of a text is trimmed. -/
theorem trimmed_append_of_blank_left {before : List Char}
    (h : ∀ c ∈ before, isWhiteSpace c = true) (cs : List Char) :
    trimmed (before ++ cs) = trimmed cs := by
  rw [trimmed, trimmed, List.dropWhile_append_of_pos h]

/-- Characters may be replaced before or after trimming, if white space stays white space. -/
theorem map_trimmed {f : Char → Char} (hf : ∀ c, isWhiteSpace (f c) = isWhiteSpace c)
    (cs : List Char) : (trimmed cs).map f = trimmed (cs.map f) := by
  have hcomp : isWhiteSpace ∘ f = isWhiteSpace := funext hf
  rw [trimmed, trimmed, List.dropWhile_map, hcomp, ← List.map_reverse, List.dropWhile_map, hcomp,
    List.map_reverse]

end CaptureIngest.Text
