import CaptureIngest.Layout.Recognition

/-!
# The reader of layout texts, case by case

What each part of the reader does, told by what the text begins with. Later statements compare two
runs of the reader, and cite these cases instead of opening its functions.

* **Blanks** (`skipBlank_of_afterComment?`, `skipBlank_hyphen`): hyphens that begin no comment are
  left where they are.
* **Units** (`readUnit_of_closed`, `readUnit_of_not_closed`, `readUnit_of_not_open`).
* **Lists** (`readMore_of_ok`, `readMore_of_error`, `readMore_of_ne`, `readDeclarations_of_ok`,
  `readDeclarations_of_error`): what comes of a list is up to its first declaration.
* **Whole texts** (`readLayout_of_open`, `readLayout_of_not_open`): the declarations are read, and then
  what has to stand behind them (`atEnd`, `atClosing`).
-/

namespace CaptureIngest.Layout

/-! ## Blanks -/

/-- A comment that does not end as comments do is not skipped. -/
theorem skipBlank_of_afterComment? {body : List Char} (h : afterComment? body = none) :
    skipBlank ('-' :: '-' :: body) = '-' :: '-' :: body := by
  rw [skipBlank.eq_def]
  simp only [show isLayoutSpace '-' = false by decide, Bool.false_eq_true, if_false, if_true]
  split <;> simp_all

/-- A single hyphen is not skipped. -/
theorem skipBlank_hyphen {rest : List Char} (h : ∀ body, rest ≠ '-' :: body) :
    skipBlank ('-' :: rest) = '-' :: rest := by
  rw [skipBlank.eq_def]
  simp only [show isLayoutSpace '-' = false by decide, Bool.false_eq_true, if_false, if_true]

/-- What is left behind blanks is an end of the text. -/
theorem skipBlank_suffix (cs : List Char) : skipBlank cs <:+ cs := by
  fun_induction skipBlank cs with
  | case1 => exact List.suffix_rfl
  | case2 c rest _ ih => exact ih.trans (List.suffix_cons c rest)
  | case3 body after hafter _ ih =>
    obtain ⟨front, rfl, -, -⟩ := exists_of_afterComment?_eq_some hafter
    exact ih.trans ⟨'-' :: '-' :: front, rfl⟩
  | case4 | case5 | case6 => exact List.suffix_rfl

/-! ## Units -/

/-- What is left behind a question mark is an end of the text. -/
theorem readMark_suffix (cs : List Char) : (readMark cs).2 <:+ cs := by
  unfold readMark
  split
  · next rest => exact List.suffix_cons '?' rest
  · exact List.suffix_rfl

/-- Where no question mark stands none is read. -/
theorem readMark_of_ne {cs : List Char} (h : ∀ rest, cs ≠ '?' :: rest) : readMark cs = (false, cs) := by
  unfold readMark
  split
  · next rest => exact absurd rfl (h rest)
  · rfl

/-- The characters that a unit may hold. -/
def isUnitChar (c : Char) : Bool :=
  c != '\x7d' && c != '\n'

/-- A unit is read up to its closing brace. -/
theorem readUnit_of_closed {cs body rest : List Char} (hopen : cs.dropWhile isGap = '\x7b' :: body)
    (hclose : body.dropWhile isUnitChar = '\x7d' :: rest) :
    readUnit cs = .ok (some (.ofList (body.takeWhile isUnitChar)), rest) := by
  have hclose : body.dropWhile (fun c => c != '\x7d' && c != '\n') = '\x7d' :: rest := hclose
  simp only [readUnit, hopen, hclose]
  rfl

/-- A unit without a closing brace on its line stops the reader where the line ends. -/
theorem readUnit_of_not_closed {cs body : List Char} (hopen : cs.dropWhile isGap = '\x7b' :: body)
    (hclose : ∀ rest, body.dropWhile isUnitChar ≠ '\x7d' :: rest) :
    readUnit cs = .error (body.dropWhile isUnitChar) := by
  simp only [readUnit, hopen]
  split
  · next rest hrest => exact absurd hrest (hclose rest)
  · rfl

/-- Where no brace opens no unit is read. -/
theorem readUnit_of_not_open {cs : List Char}
    (hopen : ∀ body, cs.dropWhile isGap ≠ '\x7b' :: body) : readUnit cs = .ok (none, cs) := by
  unfold readUnit
  split
  · next body hbody => exact absurd hbody (hopen body)
  · rfl

/-! ## Lists of declarations -/

/-- A list is over where no comma follows. -/
theorem readMore_of_ne {cs : List Char} (h : ∀ afterComma, skipBlank cs ≠ ',' :: afterComma) :
    readMore cs = .ok ([], cs) := by
  rw [readMore.eq_def]
  split
  · next afterComma hskip => exact absurd hskip (h afterComma)
  · rfl

/-- Behind a comma the reader stops where the next declaration stops it. -/
theorem readMore_of_error {cs afterComma stop : List Char} (h : skipBlank cs = ',' :: afterComma)
    (hd : readDeclaration (skipBlank afterComma) = .error stop) : readMore cs = .error stop := by
  rw [readMore.eq_def]
  split
  · next hskip =>
    cases h.symm.trans hskip
    split
    · next hd' =>
      cases hd'.symm.trans hd
      rfl
    · next hd' => cases hd'.symm.trans hd
  · next hno => exact absurd h (hno afterComma)

/-- Behind a comma the next declaration is read, and then the rest of the list. -/
theorem readMore_of_ok {cs afterComma rest : List Char} {d : Declaration}
    (h : skipBlank cs = ',' :: afterComma)
    (hd : readDeclaration (skipBlank afterComma) = .ok (d, rest)) :
    readMore cs = (readMore rest).map fun more => (d :: more.1, more.2) := by
  rw [readMore.eq_def]
  split
  · next hskip =>
    cases h.symm.trans hskip
    split
    · next hd' => cases hd'.symm.trans hd
    · next hd' =>
      cases hd'.symm.trans hd
      cases readMore rest <;> rfl
  · next hno => exact absurd h (hno afterComma)

/-- A list whose first declaration stops the reader stops it there. -/
theorem readDeclarations_of_error {cs stop : List Char}
    (hname : ¬ (cs.takeWhile Text.isNameChar).isEmpty = true) (hd : readDeclaration cs = .error stop) :
    readDeclarations cs = .error stop := by
  rw [readDeclarations, if_neg hname, hd]

/-- Of a list the first declaration is read, and then the rest. -/
theorem readDeclarations_of_ok {cs rest : List Char} {d : Declaration}
    (hd : readDeclaration cs = .ok (d, rest)) :
    readDeclarations cs = (readMore rest).map fun more => (d :: more.1, more.2) := by
  have hname : ¬ (cs.takeWhile Text.isNameChar).isEmpty = true := by
    intro hempty
    rw [readDeclaration, if_pos hempty] at hd
    cases hd
  rw [readDeclarations, if_neg hname, hd]
  dsimp only
  cases readMore rest <;> rfl

/-! ## Whole texts -/

/-- What comes of declarations if only blanks may stand behind them. -/
def atEnd (ds : List Declaration) : List Char → Except (List Char) (List Declaration)
  | [] => .ok ds
  | stop => .error stop

/-- What comes of declarations if a closing parenthesis has to stand behind them. -/
def atClosing (ds : List Declaration) : List Char → Except (List Char) (List Declaration)
  | ')' :: after => atEnd ds (skipBlank after)
  | stop => .error stop

/-- Where the text has to be over the reader stops at anything. -/
theorem atEnd_of_ne_nil {ds : List Declaration} {stop : List Char} (h : stop ≠ []) :
    atEnd ds stop = .error stop := by
  cases stop with
  | nil => exact absurd rfl h
  | cons c stop => rfl

/-- Where a parenthesis has to close the reader stops at anything else. -/
theorem atClosing_of_ne {ds : List Declaration} {stop : List Char}
    (h : ∀ after, stop ≠ ')' :: after) : atClosing ds stop = .error stop := by
  unfold atClosing
  split
  · next after => exact absurd rfl (h after)
  · rfl

/-- A text that opens a parenthesis has to close it behind its declarations. -/
theorem readLayout_of_open {cs inside : List Char} (h : skipBlank cs = '(' :: inside) :
    readLayout cs =
      (readDeclarations (skipBlank inside)).bind fun r => atClosing r.1 (skipBlank r.2) := by
  unfold readLayout
  simp only [h]
  cases readDeclarations (skipBlank inside) with
  | error stop => rfl
  | ok r => rfl

/-- A text that opens no parenthesis has to be over behind its declarations. -/
theorem readLayout_of_not_open {cs : List Char} (h : ∀ inside, skipBlank cs ≠ '(' :: inside) :
    readLayout cs =
      (readDeclarations (skipBlank cs)).bind fun r => atEnd r.1 (skipBlank r.2) := by
  unfold readLayout
  split
  · next inside hopen => exact absurd hopen (h inside)
  · cases readDeclarations (skipBlank cs) with
    | error stop => rfl
    | ok r => rfl

end CaptureIngest.Layout
