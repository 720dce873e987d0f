import CaptureIngest.Proofs.Text.Lines
import CaptureIngest.Text.Quoted

/-!
# Quoted texts read back

`Text.readBody` takes apart what `Text.quoteWith` puts together, whatever follows the closing quote.

* **Reading back** (`readBody_escape`, `readQuoted_quoteWith`): the reader finds the text that was
  quoted, and leaves what stands behind the closing quote.
* **Nothing is lost** (`quoteString_append_inj`, `quoteIdentifier_inj`): a quoted text and what
  follows it are determined by what is written.
* **One line** (`not_mem_quoteWith`): no quoted text holds a line feed, a carriage return or a tab.
* **Plain identifiers** (`isPlainIdentifier_iff`): the names that stand without quotes are those of the
  form `[A-Za-z_][A-Za-z0-9_]*` (`IsIdentifier`).
* **Quoting is reversible** (`quoting_reversible`): all of this, for string literals and for names.
-/

namespace CaptureIngest.Text

/-- The two marks between which texts are quoted. -/
def IsQuote (quote : Char) : Prop :=
  quote = '"' ∨ quote = '\''

/-- The characters that a quoted text never holds as they are. -/
def IsBreak (c : Char) : Prop :=
  c = '\n' ∨ c = '\r' ∨ c = '\t'

/-! ## One character -/

/-- A character is written as itself, or as a backslash and a character that stands for it. -/
theorem escapeChar_cases {quote : Char} (hq : IsQuote quote) (c : Char) :
    (escapeChar quote c = [c] ∧ c ≠ quote ∧ c ≠ '\\' ∧ ¬ IsBreak c) ∨
      ∃ d, escapeChar quote c = ['\\', d] ∧ unescape? quote d = some c ∧ ¬ IsBreak d := by
  by_cases hbreak : IsBreak c
  · right
    rcases hbreak with rfl | rfl | rfl
    · exact ⟨'n', by simp [escapeChar], rfl, by simp [IsBreak]⟩
    · exact ⟨'r', by simp [escapeChar], rfl, by simp [IsBreak]⟩
    · exact ⟨'t', by simp [escapeChar], rfl, by simp [IsBreak]⟩
  · have hraw : c ≠ '\n' ∧ c ≠ '\r' ∧ c ≠ '\t' := by simpa only [IsBreak, not_or] using hbreak
    by_cases hmark : c = '\\' ∨ c = quote
    · refine .inr ⟨c, by simp only [escapeChar, hraw, hmark, if_true, if_false], ?_, hbreak⟩
      -- neither the backslash nor a quote is one of the letters that stand for a break
      have hletter : c ≠ 'n' ∧ c ≠ 'r' ∧ c ≠ 't' := by
        rcases hmark with rfl | rfl
        · decide
        · rcases hq with rfl | rfl <;> decide
      simp only [unescape?, hletter, hmark, if_true, if_false]
    · rw [not_or] at hmark
      exact .inl ⟨by simp only [escapeChar, hraw, hmark, or_self, if_false], hmark.2, hmark.1,
        hbreak⟩

/-- Every character is written as at least one. -/
theorem length_le_length_escape (quote : Char) (cs : List Char) :
    cs.length ≤ (escape quote cs).length := by
  induction cs with
  | nil => exact Nat.le_refl 0
  | cons c cs ih =>
    have hone : 1 ≤ (escapeChar quote c).length := by
      unfold escapeChar
      split_ifs <;> simp
    rw [escape_cons, List.length_append, List.length_cons]
    omega

/-! ## Reading back -/

/-- A character that is written as itself is read as itself. -/
theorem readBody_cons {quote c : Char} (hquote : c ≠ quote) (hbackslash : c ≠ '\\')
    (rest : List Char) :
    readBody quote (c :: rest) = (readBody quote rest).map fun r => (c :: r.1, r.2) := by
  rw [readBody.eq_def]
  simp only [hquote, hbackslash, if_false]
  cases readBody quote rest <;> rfl

/-- A character behind a backslash is read as the one that it stands for. -/
theorem readBody_backslash {quote c d : Char} (hq : IsQuote quote) (h : unescape? quote d = some c)
    (rest : List Char) :
    readBody quote ('\\' :: d :: rest) = (readBody quote rest).map fun r => (c :: r.1, r.2) := by
  have hne : '\\' ≠ quote := by
    rcases hq with rfl | rfl <;> decide
  rw [readBody.eq_def]
  simp only [hne, if_false, if_true, h]
  cases readBody quote rest <;> rfl

/-- **Reading back**: the reader finds what was quoted and leaves what follows the closing quote. -/
theorem readBody_escape {quote : Char} (hq : IsQuote quote) (cs rest : List Char) :
    readBody quote (escape quote cs ++ quote :: rest) = some (cs, rest) := by
  induction cs with
  | nil =>
    rw [escape_nil, List.nil_append, readBody.eq_def]
    simp only [if_true]
  | cons c cs ih =>
    rw [escape_cons, List.append_assoc]
    rcases escapeChar_cases hq c with ⟨hc, hquote, hbackslash, -⟩ | ⟨d, hc, hd, -⟩
    · rw [hc, List.singleton_append, readBody_cons hquote hbackslash, ih]
      rfl
    · rw [hc, List.cons_append, List.singleton_append, readBody_backslash hq hd, ih]
      rfl

/-- So does the reader that starts at the opening quote. -/
theorem readQuoted_quoteWith {quote : Char} (hq : IsQuote quote) (s r : String) :
    readQuoted quote (quoteWith quote s ++ r) = some (s, r) := by
  have hlist : (quoteWith quote s ++ r).toList =
      quote :: (escape quote s.toList ++ quote :: r.toList) := by
    simp [quoteWith]
  rw [readQuoted, hlist]
  simp only [if_true, readBody_escape hq, Option.map_some, String.ofList_toList]

/-- A quoted text and what follows it are determined by what is written. -/
theorem quoteWith_append_inj {quote : Char} (hq : IsQuote quote) {s t r u : String}
    (h : quoteWith quote s ++ r = quoteWith quote t ++ u) : s = t ∧ r = u := by
  have hread := readQuoted_quoteWith hq s r
  rw [h, readQuoted_quoteWith hq, Option.some.injEq, Prod.mk.injEq] at hread
  exact ⟨hread.1.symm, hread.2.symm⟩

/-- A string literal and what follows it are determined by what is written. -/
theorem quoteString_append_inj {s t r u : String} (h : quoteString s ++ r = quoteString t ++ u) :
    s = t ∧ r = u :=
  quoteWith_append_inj (.inl rfl) h

/-- A string literal is determined by what is written. -/
theorem quoteString_inj {s t : String} (h : quoteString s = quoteString t) : s = t :=
  (quoteString_append_inj (r := "") (u := "") (by rw [h])).1

/-- No plain identifier begins with a quote. -/
theorem quoteWith_ne_of_isPlainIdentifier {s : String} (hs : isPlainIdentifier s = true)
    (t : String) : s ≠ quoteWith '\'' t := by
  rintro rfl
  simp only [isPlainIdentifier, quoteWith, String.toList_ofList, List.cons_append,
    Bool.and_eq_true] at hs
  exact absurd hs.1 (by decide)

/-- A name that stands without quotes stands as it is, and any other name is longer where it is
written. -/
theorem quoteIdentifier_eq_self_iff {s : String} :
    quoteIdentifier s = s ↔ isPlainIdentifier s = true := by
  unfold quoteIdentifier
  split_ifs with hs
  · exact iff_of_true rfl hs
  · refine iff_of_false (fun h => ?_) hs
    have hlength := congrArg String.length h
    have hbody := length_le_length_escape '\'' s.toList
    rw [← String.length_toList, ← String.length_toList, quoteWith, String.toList_ofList] at hlength
    simp only [List.length_append, List.length_cons, List.length_nil] at hlength
    omega

/-- A name is determined by what is written, whether it had to be quoted or not. -/
theorem quoteIdentifier_inj {s t : String} (h : quoteIdentifier s = quoteIdentifier t) : s = t := by
  by_cases hs : isPlainIdentifier s = true <;> by_cases ht : isPlainIdentifier t = true
  · simpa [quoteIdentifier, hs, ht] using h
  · simp only [quoteIdentifier, hs, ht, if_true] at h
    exact absurd h (quoteWith_ne_of_isPlainIdentifier hs t)
  · simp only [quoteIdentifier, hs, ht, if_true] at h
    exact absurd h.symm (quoteWith_ne_of_isPlainIdentifier ht s)
  · rw [quoteIdentifier, if_neg hs, quoteIdentifier, if_neg ht] at h
    exact (quoteWith_append_inj (.inr rfl) (r := "") (u := "") (by rw [h])).1

/-! ## One line -/

/-- No break stands between two quotes. -/
theorem not_mem_escape {quote c : Char} (hq : IsQuote quote) (hc : IsBreak c) (cs : List Char) :
    c ∉ escape quote cs := by
  induction cs with
  | nil => exact List.not_mem_nil
  | cons d cs ih =>
    rw [escape_cons, List.mem_append, not_or]
    refine ⟨?_, ih⟩
    have hbackslash : c ≠ '\\' := by
      rcases hc with rfl | rfl | rfl <;> decide
    rcases escapeChar_cases hq d with ⟨hd, -, -, hraw⟩ | ⟨e, hd, -, hraw⟩
    · have hne : c ≠ d := fun h => hraw (h ▸ hc)
      simpa [hd] using hne
    · have hne : c ≠ e := fun h => hraw (h ▸ hc)
      simpa [hd] using ⟨hbackslash, hne⟩

/-- **One line**: no quoted text holds a break. -/
theorem not_mem_quoteWith {quote c : Char} (hq : IsQuote quote) (hc : IsBreak c) (s : String) :
    c ∉ (quoteWith quote s).toList := by
  have hquote : c ≠ quote := by
    rcases hc with rfl | rfl | rfl <;> rcases hq with rfl | rfl <;> decide
  have hbody := not_mem_escape hq hc s.toList
  simp [quoteWith, hquote, hbody]

/-- A text between two quotes is of one line. -/
theorem oneLine_quoteWith {quote : Char} (hq : IsQuote quote) (s : String) :
    OneLine (quoteWith quote s) :=
  not_mem_quoteWith hq (.inl rfl) s

/-- A string literal is of one line. -/
theorem oneLine_quoteString (s : String) : OneLine (quoteString s) :=
  oneLine_quoteWith (.inl rfl) s

/-- The characters of a plain identifier are letters, digits and underscores. -/
theorem isNameChar_of_isPlainIdentifier {s : String} (h : isPlainIdentifier s = true) :
    s.toList ≠ [] ∧ ∀ c ∈ s.toList, isNameChar c = true := by
  cases hs : s.toList with
  | nil => simp [isPlainIdentifier, hs] at h
  | cons c cs =>
    simp only [isPlainIdentifier, hs, Bool.and_eq_true, List.all_eq_true] at h
    refine ⟨List.cons_ne_nil c cs, fun d hd => ?_⟩
    rcases List.mem_cons.mp hd with rfl | hd
    · have hstart := h.1
      simp only [isNameStart, Bool.or_eq_true] at hstart
      simp only [isNameChar, Char.isAlphanum, Bool.or_eq_true]
      exact hstart.imp_left .inl
    · exact h.2 d hd

/-- A plain identifier is of one line. -/
theorem oneLine_of_isPlainIdentifier {s : String} (h : isPlainIdentifier s = true) : OneLine s :=
  oneLine_of_all (isNameChar_of_isPlainIdentifier h).2 (by decide)

/-- A name is of one line where it is written. -/
theorem oneLine_quoteIdentifier (s : String) : OneLine (quoteIdentifier s) := by
  by_cases hs : isPlainIdentifier s = true
  · simpa [quoteIdentifier, hs] using oneLine_of_isPlainIdentifier hs
  · simpa [quoteIdentifier, hs] using oneLine_quoteWith (.inr rfl) s

/-! ## Plain identifiers -/

/-- A letter of the alphabet, without accents. -/
def IsLetter (c : Char) : Prop :=
  ('A' ≤ c ∧ c ≤ 'Z') ∨ ('a' ≤ c ∧ c ≤ 'z')

/-- A decimal digit. -/
def IsDigit (c : Char) : Prop :=
  '0' ≤ c ∧ c ≤ '9'

/-- A text `[A-Za-z_][A-Za-z0-9_]*`. -/
inductive IsIdentifier (s : String) : Prop
  /-- A letter or an underscore, and then letters, digits and underscores. -/
  | word {c : Char} {cs : List Char} : s.toList = c :: cs → IsLetter c ∨ c = '_' →
    (∀ d ∈ cs, IsLetter d ∨ IsDigit d ∨ d = '_') → IsIdentifier s

/-- The test for letters says which characters are letters. -/
theorem isAlpha_iff {c : Char} : c.isAlpha = true ↔ IsLetter c := by
  have hupper : c.isUpper = true ↔ 'A' ≤ c ∧ c ≤ 'Z' := decide_eq_true_iff
  have hlower : c.isLower = true ↔ 'a' ≤ c ∧ c ≤ 'z' := by
    show (decide ('a' ≤ c) && decide (c ≤ 'z')) = true ↔ _
    rw [Bool.and_eq_true, decide_eq_true_iff, decide_eq_true_iff]
  show (c.isUpper || c.isLower) = true ↔ _
  rw [Bool.or_eq_true, hupper, hlower, IsLetter]

/-- The test for digits says which characters are digits. -/
theorem isDigit_iff {c : Char} : c.isDigit = true ↔ IsDigit c := by
  simp [Char.isDigit, IsDigit, Char.le_def]

/-- The plain identifiers are recognised. -/
theorem isPlainIdentifier_iff {s : String} : isPlainIdentifier s = true ↔ IsIdentifier s := by
  have hstart : ∀ c, isNameStart c = true ↔ IsLetter c ∨ c = '_' := fun c => by
    simp [isNameStart, isAlpha_iff]
  have hchar : ∀ c, isNameChar c = true ↔ IsLetter c ∨ IsDigit c ∨ c = '_' := fun c => by
    simp [isNameChar, Char.isAlphanum, isAlpha_iff, isDigit_iff, or_assoc]
  constructor
  · intro h
    unfold isPlainIdentifier at h
    split at h
    · cases h
    · next c cs hs =>
      rw [Bool.and_eq_true, List.all_eq_true] at h
      exact .word hs ((hstart c).mp h.1) fun d hd => (hchar d).mp (h.2 d hd)
  · rintro ⟨hs, hc, hcs⟩
    rw [isPlainIdentifier, hs]
    dsimp only
    rw [Bool.and_eq_true, List.all_eq_true]
    exact ⟨(hstart _).mpr hc, fun d hd => (hchar d).mpr (hcs d hd)⟩

/-! ## Quoting is reversible -/

/-- **Quoting is reversible**, whatever is quoted and whatever follows it.

A string literal is read back from its opening quote on, with what follows it left over, and holds no
break; so is every name that is no identifier. An identifier stands as it is, and nothing else does.
String literals and names are therefore determined by what is written. -/
theorem quoting_reversible :
    (∀ s r, readQuoted '"' (quoteString s ++ r) = some (s, r)) ∧
    (∀ s c, IsBreak c → c ∉ (quoteString s).toList) ∧
    (∀ s, ¬ IsIdentifier s →
      (∀ r, readQuoted '\'' (quoteIdentifier s ++ r) = some (s, r)) ∧
        ∀ c, IsBreak c → c ∉ (quoteIdentifier s).toList) ∧
    (∀ s, quoteIdentifier s = s ↔ IsIdentifier s) ∧
    (∀ s t, quoteString s = quoteString t → s = t) ∧
    ∀ s t, quoteIdentifier s = quoteIdentifier t → s = t := by
  have hdouble : IsQuote '"' := .inl rfl
  have hsingle : IsQuote '\'' := .inr rfl
  refine ⟨readQuoted_quoteWith hdouble, fun s c hc => not_mem_quoteWith hdouble hc s,
    fun s hs => ?_, fun s => ?_, fun s t => quoteString_inj, fun s t => quoteIdentifier_inj⟩
  · rw [← isPlainIdentifier_iff] at hs
    rw [quoteIdentifier, if_neg hs]
    exact ⟨readQuoted_quoteWith hsingle s, fun c hc => not_mem_quoteWith hsingle hc s⟩
  · rw [quoteIdentifier_eq_self_iff, isPlainIdentifier_iff]

end CaptureIngest.Text
