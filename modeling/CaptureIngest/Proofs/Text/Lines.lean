import CaptureIngest.Text.Lines
import Mathlib.Data.List.Basic

/-!
# Taking texts apart into lines

`Text.joinLines` puts line feeds between lines; here a text is cut at its line feeds again.

* `OneLine s`: the text `s` holds no line feed. It is a property of all parts of a text or of none
  (`oneLine_append`).
* `splitLines s`: what stands between the line feeds of `s`.
* **Joining loses nothing** (`splitLines_joinLines`): lines without line feeds are the lines of the
  text that they are joined to.
* `paragraphs s`: what stands between the empty lines of `s`. It gives back the lines of texts that
  were written with an empty line between them (`paragraphs_intercalate`).
* `cutAtGaps s`: what stands between the pairs of line feeds of `s`, which for such texts is the same
  cut (`cutAtGaps_intercalate`).
* `Begins p s`: the text `s` begins with `p`. Of two beginnings one begins the other
  (`Begins.or_begins`), so a text that begins in one way does not begin in a way that parts from it
  (`not_begins_append`).
-/

namespace CaptureIngest.Text

/-! ## Texts of one line -/

/-- A text without a line feed. -/
def OneLine (s : String) : Prop :=
  '\n' ∉ s.toList

instance (s : String) : Decidable (OneLine s) :=
  inferInstanceAs (Decidable ('\n' ∉ s.toList))

/-- A text is of one line iff its two parts are. -/
@[simp]
theorem oneLine_append {s t : String} : OneLine (s ++ t) ↔ OneLine s ∧ OneLine t := by
  simp [OneLine]

/-- Spaces are of one line. -/
theorem oneLine_spaces (n : Nat) : OneLine (spaces n) := by
  simp [OneLine]

/-- A text whose characters all have a property that a line feed has not is of one line. -/
theorem oneLine_of_all {p : Char → Bool} {s : String} (h : ∀ c ∈ s.toList, p c = true)
    (hp : p '\n' = false) : OneLine s := by
  intro hmem
  rw [h '\n' hmem] at hp
  cases hp

/-- A text none of whose bytes is that of a line feed is of one line. -/
theorem oneLine_of_bytes {s : String} (h : 10 ∉ s.toByteArray.data.toList) : OneLine s := by
  intro hmem
  apply h
  rw [← String.utf8Encode_toList, List.utf8Encode, List.data_toByteArray, List.toList_toArray]
  exact List.mem_flatMap.mpr ⟨'\n', hmem, by decide⟩

/-- The digits of a number are of one line. -/
theorem oneLine_repr (n : Nat) : OneLine (Nat.repr n) := by
  refine oneLine_of_all (p := Char.isDigit) (fun c hc => ?_) (by decide)
  rw [Nat.toList_repr] at hc
  exact Nat.isDigit_of_mem_toDigits (by decide) (by decide) hc

/-! ## Cutting at line feeds -/

/-- What stands between the line feeds of a text. -/
def splitLines (s : String) : List String :=
  (s.toList.splitOn '\n').map String.ofList

/-- **Joining loses nothing**: the lines that were joined are the lines of the text. -/
theorem splitLines_joinLines {lines : List String} (hlines : ∀ line ∈ lines, OneLine line)
    (hne : lines ≠ []) : splitLines (joinLines lines) = lines := by
  have hsplit : (['\n'].intercalate (lines.map String.toList)).splitOn '\n'
      = lines.map String.toList := by
    apply List.splitOn_intercalate
    · intro cs hcs
      obtain ⟨line, hline, rfl⟩ := List.mem_map.mp hcs
      exact hlines line hline
    · simpa using hne
  have htext : (joinLines lines).toList = ['\n'].intercalate (lines.map String.toList) := by
    simp [joinLines]
  rw [splitLines, htext, hsplit, List.map_map]
  exact List.map_id'' (fun line => String.ofList_toList) lines

/-- Lines in front of others are joined to them by a line feed. -/
theorem joinLines_cons {line : String} {rest : List String} (hne : rest ≠ []) :
    joinLines (line :: rest) = line ++ "\n" ++ joinLines rest :=
  String.intercalate_cons_of_ne_nil hne

/-- Joined lines begin with the first of them. -/
theorem exists_joinLines_eq_append (line : String) (rest : List String) :
    ∃ tail, joinLines (line :: rest) = line ++ tail := by
  cases rest with
  | nil => exact ⟨"", by simp [joinLines]⟩
  | cons next rest =>
    exact ⟨"\n" ++ joinLines (next :: rest), by
      rw [joinLines_cons (List.cons_ne_nil _ _), String.append_assoc]⟩

/-- What is written behind joined lines belongs to the last of them. -/
theorem joinLines_append_singleton (lines : List String) (last s : String) :
    joinLines (lines ++ [last]) ++ s = joinLines (lines ++ [last ++ s]) := by
  induction lines with
  | nil => simp [joinLines]
  | cons line lines ih =>
    rw [List.cons_append, List.cons_append, joinLines_cons (by simp), joinLines_cons (by simp),
      String.append_assoc, ih]

/-- A line in front of a text is cut off at its line feed. -/
theorem splitLines_append {line : String} (h : OneLine line) (s : String) :
    splitLines (line ++ "\n" ++ s) = line :: splitLines s := by
  have htext : (line ++ "\n" ++ s).toList = line.toList ++ '\n' :: s.toList := by
    simp [String.append_assoc]
  rw [splitLines, htext, List.splitOn_append_cons_self_of_not_mem h, List.map_cons,
    String.ofList_toList, splitLines]

/-- Lines in front of a text are cut off one by one. -/
theorem splitLines_joinLines_append {lines : List String} (hlines : ∀ line ∈ lines, OneLine line)
    (hne : lines ≠ []) (s : String) :
    splitLines (joinLines lines ++ "\n" ++ s) = lines ++ splitLines s := by
  induction lines with
  | nil => exact absurd rfl hne
  | cons line lines ih =>
    have hline : OneLine line := hlines line List.mem_cons_self
    by_cases hrest : lines = []
    · subst hrest
      exact splitLines_append hline s
    · have htail := ih (fun l hl => hlines l (List.mem_cons_of_mem line hl)) hrest
      rw [joinLines_cons hrest, String.append_assoc, String.append_assoc, splitLines_append hline,
        ← String.append_assoc, htail, List.cons_append]

/-! ## Cutting at empty lines -/

/-- The lines between the empty lines of a text. -/
def paragraphs (s : String) : List (List String) :=
  (splitLines s).splitOn ""

/-- Lines that can be told from those around them: there are some, and none is empty. -/
structure IsParagraph (lines : List String) : Prop where
  /-- There are lines. -/
  ne_nil : lines ≠ []
  /-- None of them holds a line feed. -/
  oneLine : ∀ line ∈ lines, OneLine line
  /-- None of them is empty. -/
  ne_empty : "" ∉ lines

/-- A paragraph in front of a text is cut off at the empty line behind it, line by line. -/
theorem splitLines_gap {lines : List String} (h : IsParagraph lines) (s : String) :
    splitLines (joinLines lines ++ "\n\n" ++ s) = lines ++ "" :: splitLines s := by
  have htext : joinLines lines ++ "\n\n" ++ s = joinLines lines ++ "\n" ++ ("" ++ "\n" ++ s) := by
    simp only [String.append_assoc, String.empty_append]
    rfl
  rw [htext, splitLines_joinLines_append h.oneLine h.ne_nil, splitLines_append (by decide)]

/-- A paragraph in front of a text is cut off at the empty line behind it. -/
theorem paragraphs_append {lines : List String} (h : IsParagraph lines) (s : String) :
    paragraphs (joinLines lines ++ "\n\n" ++ s) = lines :: paragraphs s := by
  rw [paragraphs, splitLines_gap h, List.splitOn_append_cons_self_of_not_mem h.ne_empty, paragraphs]

/-- Paragraphs are told by the text in which empty lines stand between them. -/
theorem paragraphs_intercalate {ps : List (List String)} (hps : ∀ lines ∈ ps, IsParagraph lines)
    (hne : ps ≠ []) :
    paragraphs ("\n\n".intercalate (ps.map joinLines) ++ "\n") = ps ++ [[]] := by
  induction ps with
  | nil => exact absurd rfl hne
  | cons lines ps ih =>
    have hlines : IsParagraph lines := hps lines List.mem_cons_self
    by_cases hrest : ps = []
    · subst hrest
      -- behind the last line feed there is an empty line more
      have hlast : splitLines (joinLines lines ++ "\n" ++ "") = lines ++ [""] :=
        splitLines_joinLines_append hlines.oneLine hlines.ne_nil ""
      rw [String.append_empty] at hlast
      rw [paragraphs, List.map_singleton, String.intercalate_singleton, hlast,
        List.splitOn_append_cons_self_of_not_mem hlines.ne_empty, List.splitOn_nil,
        List.singleton_append]
    · have htail := ih (fun l hl => hps l (List.mem_cons_of_mem lines hl)) hrest
      rw [List.map_cons, String.intercalate_cons_of_ne_nil (by simpa using hrest),
        String.append_assoc, paragraphs_append hlines, htail, List.cons_append]

/-! ## Cutting at pairs of line feeds -/

/-- The pieces of a list of characters between pairs of line feeds, met from the left. -/
def piecesAtGaps : List Char → List (List Char)
  | [] => [[]]
  | [c] => [[c]]
  | c :: d :: rest =>
    if c = '\n' ∧ d = '\n' then [] :: piecesAtGaps rest
    else (piecesAtGaps (d :: rest)).modifyHead (c :: ·)

/-- What stands between the pairs of line feeds of a text. -/
def cutAtGaps (s : String) : List String :=
  (piecesAtGaps s.toList).map String.ofList

/-- A character that is no line feed belongs to the first piece. -/
theorem piecesAtGaps_cons_of_ne {c : Char} (hc : c ≠ '\n') (rest : List Char) :
    piecesAtGaps (c :: rest) = (piecesAtGaps rest).modifyHead (c :: ·) := by
  cases rest with
  | nil => rfl
  | cons d rest => rw [piecesAtGaps, if_neg fun h => hc h.1]

/-- A line feed belongs to the first piece if no other follows it. -/
theorem piecesAtGaps_lineFeed_cons {d : Char} (hd : d ≠ '\n') (rest : List Char) :
    piecesAtGaps ('\n' :: d :: rest) = (piecesAtGaps (d :: rest)).modifyHead ('\n' :: ·) := by
  rw [piecesAtGaps, if_neg fun h => hd h.2]

/-- A pair of line feeds cuts. -/
theorem piecesAtGaps_gap (rest : List Char) :
    piecesAtGaps ('\n' :: '\n' :: rest) = [] :: piecesAtGaps rest := by
  rw [piecesAtGaps, if_pos ⟨rfl, rfl⟩]

/-- What holds no line feed belongs to the first piece. -/
theorem piecesAtGaps_append_of_not_mem {cs : List Char} (hcs : '\n' ∉ cs) (rest : List Char) :
    piecesAtGaps (cs ++ rest) = (piecesAtGaps rest).modifyHead (cs ++ ·) := by
  induction cs with
  | nil =>
    show _ = (piecesAtGaps rest).modifyHead id
    rw [List.modifyHead_id]
    rfl
  | cons c cs ih =>
    rw [List.mem_cons, not_or] at hcs
    rw [List.cons_append, piecesAtGaps_cons_of_ne (Ne.symm hcs.1), ih hcs.2,
      List.modifyHead_modifyHead]
    rfl

/-- The lines of a paragraph behind the first are a paragraph if there are any. -/
theorem IsParagraph.tail {line : String} {lines : List String} (h : IsParagraph (line :: lines))
    (hne : lines ≠ []) : IsParagraph lines where
  ne_nil := hne
  oneLine l hl := h.oneLine l (List.mem_cons_of_mem line hl)
  ne_empty hempty := h.ne_empty (List.mem_cons_of_mem line hempty)

/-- A paragraph begins with a character that is no line feed. -/
theorem IsParagraph.exists_eq_cons {lines : List String} (h : IsParagraph lines) :
    ∃ c cs, (joinLines lines).toList = c :: cs ∧ c ≠ '\n' := by
  obtain ⟨line, rest, rfl⟩ := List.exists_cons_of_ne_nil h.ne_nil
  obtain ⟨tail, htail⟩ := exists_joinLines_eq_append line rest
  have hline : line.toList ≠ [] := by
    intro hnil
    apply h.ne_empty
    rw [← String.toList_inj.mp (hnil.trans String.toList_empty.symm)]
    exact List.mem_cons_self
  obtain ⟨c, cs, hc⟩ := List.exists_cons_of_ne_nil hline
  refine ⟨c, cs ++ tail.toList, ?_, ?_⟩
  · rw [htail, String.toList_append, hc, List.cons_append]
  · rintro rfl
    apply h.oneLine line List.mem_cons_self
    rw [hc]
    exact List.mem_cons_self

/-- A paragraph belongs to the first piece, whatever follows it: its last line holds a character
that is no line feed. -/
theorem piecesAtGaps_joinLines_append {lines : List String} (h : IsParagraph lines)
    (rest : List Char) :
    piecesAtGaps ((joinLines lines).toList ++ rest) =
      (piecesAtGaps rest).modifyHead ((joinLines lines).toList ++ ·) := by
  induction lines with
  | nil => exact absurd rfl h.ne_nil
  | cons line lines ih =>
    have hline : '\n' ∉ line.toList := h.oneLine line List.mem_cons_self
    by_cases hlines : lines = []
    · subst hlines
      rw [joinLines, String.intercalate_singleton]
      exact piecesAtGaps_append_of_not_mem hline rest
    · obtain ⟨c, cs, hc, hne⟩ := (h.tail hlines).exists_eq_cons
      have htext : (joinLines (line :: lines)).toList =
          line.toList ++ '\n' :: (joinLines lines).toList := by
        rw [joinLines_cons hlines, String.append_assoc, String.toList_append, String.toList_append]
        rfl
      have hrest := ih (h.tail hlines)
      rw [hc, List.cons_append] at hrest
      rw [htext, hc, List.append_assoc, List.cons_append, List.cons_append,
        piecesAtGaps_append_of_not_mem hline, piecesAtGaps_lineFeed_cons hne, hrest,
        List.modifyHead_modifyHead, List.modifyHead_modifyHead]
      congr 1
      funext piece
      simp

/-- Paragraphs are cut out of the text in which empty lines stand between them. -/
theorem cutAtGaps_intercalate {ps : List (List String)} (hps : ∀ lines ∈ ps, IsParagraph lines)
    (hne : ps ≠ []) :
    cutAtGaps ("\n\n".intercalate (ps.map joinLines)) = ps.map joinLines := by
  induction ps with
  | nil => exact absurd rfl hne
  | cons lines ps ih =>
    have hlines : IsParagraph lines := hps lines List.mem_cons_self
    by_cases hrest : ps = []
    · subst hrest
      have hpieces := piecesAtGaps_joinLines_append hlines []
      rw [List.append_nil] at hpieces
      rw [List.map_singleton, String.intercalate_singleton, cutAtGaps, hpieces]
      simp [piecesAtGaps]
    · have htail := ih (fun l hl => hps l (List.mem_cons_of_mem lines hl)) hrest
      have htext : ("\n\n".intercalate ((lines :: ps).map joinLines)).toList =
          (joinLines lines).toList ++ '\n' :: '\n' :: ("\n\n".intercalate (ps.map joinLines)).toList := by
        rw [List.map_cons, String.intercalate_cons_of_ne_nil (by simpa using hrest),
          String.append_assoc, String.toList_append, String.toList_append]
        rfl
      rw [cutAtGaps, htext, piecesAtGaps_joinLines_append hlines, piecesAtGaps_gap]
      simp only [List.modifyHead_cons, List.append_nil, List.map_cons, String.ofList_toList]
      rw [← cutAtGaps, htail]

/-- The lines of paragraphs with empty lines between them. -/
theorem splitLines_intercalate {ps : List (List String)} (hps : ∀ lines ∈ ps, IsParagraph lines)
    (hne : ps ≠ []) :
    splitLines ("\n\n".intercalate (ps.map joinLines)) = [""].intercalate ps := by
  induction ps with
  | nil => exact absurd rfl hne
  | cons lines ps ih =>
    have hlines : IsParagraph lines := hps lines List.mem_cons_self
    by_cases hrest : ps = []
    · subst hrest
      rw [List.map_singleton, String.intercalate_singleton,
        splitLines_joinLines hlines.oneLine hlines.ne_nil]
      simp
    · have htail := ih (fun l hl => hps l (List.mem_cons_of_mem lines hl)) hrest
      rw [List.map_cons, String.intercalate_cons_of_ne_nil (by simpa using hrest),
        splitLines_gap hlines, htail, List.intercalate_cons_of_ne_nil hrest]
      simp

/-! ## How lines begin -/

/-- A text begins with another. -/
def Begins (p s : String) : Prop :=
  ∃ t, s = p ++ t

/-- A text begins with another iff its characters do. -/
theorem begins_iff {p s : String} : Begins p s ↔ p.toList <+: s.toList := by
  constructor
  · rintro ⟨t, rfl⟩
    rw [String.toList_append]
    exact List.prefix_append p.toList t.toList
  · rintro ⟨cs, hcs⟩
    refine ⟨String.ofList cs, String.toList_inj.mp ?_⟩
    rw [String.toList_append, String.toList_ofList, hcs]

instance (p s : String) : Decidable (Begins p s) :=
  decidable_of_iff _ begins_iff.symm

/-- Of two beginnings of one text, one begins the other. -/
theorem Begins.or_begins {p q s : String} (hp : Begins p s) (hq : Begins q s) :
    Begins p q ∨ Begins q p := by
  rw [begins_iff] at hp hq
  rw [begins_iff, begins_iff]
  exact List.prefix_or_prefix_of_prefix hp hq

/-- A text does not begin with what parts from its own beginning. -/
theorem not_begins_append {p q : String} (hpq : ¬ Begins p q) (hqp : ¬ Begins q p) (t : String) :
    ¬ Begins p (q ++ t) := by
  intro h
  rcases h.or_begins ⟨t, rfl⟩ with hp | hq
  · exact hpq hp
  · exact hqp hq

end CaptureIngest.Text
