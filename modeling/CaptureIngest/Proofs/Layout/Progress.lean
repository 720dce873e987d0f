import CaptureIngest.Layout.Recognition
import Mathlib.Data.List.Basic

/-!
# Following a layout text character by character

Declarations do not nest, so a layout text can be followed with a finite memory. `Progress` is that
memory, and `Progress.step` takes it one character on, or nowhere if no layout text goes on like
that.

* `Progress.run`: the progress behind some characters.
* `Progress.Stuck s stop`: with progress `s` there is no way through `stop`, and this shows before
  the end of its first line.
* `Progress.Ends s cs e`: what comes of the text `cs` with progress `s`. It is read to its end
  (`none`), or followed to a text on which the progress is stuck (`some stop`).
* **Blanks** (`ends_of_skipBlank`, `stuck_blank`): what comes of a text behind its blanks comes of the
  text, and where blanks end the progress is stuck unless what follows begins something.
-/

namespace CaptureIngest.Layout

/-! ## Progress -/

/-- Where blanks may stand in a layout text. -/
inductive Place
  /-- At its beginning. -/
  | start
  /-- Behind the opening parenthesis. -/
  | opened
  /-- Behind a declaration. -/
  | declared (inParentheses : Bool)
  /-- Behind a comma. -/
  | comma (inParentheses : Bool)
  /-- Behind the closing parenthesis. -/
  | closed
  deriving DecidableEq, Repr

/-- How far a layout text has come. -/
inductive Progress
  /-- Blanks go on. -/
  | blank (place : Place)
  /-- A hyphen may begin a comment. -/
  | hyphen (place : Place)
  /-- A comment goes on. -/
  | comment (place : Place)
  /-- A carriage return may end a comment. -/
  | carriageReturn (place : Place)
  /-- A name goes on. -/
  | name (inParentheses : Bool)
  /-- The gap behind a name goes on. -/
  | gap (inParentheses : Bool)
  /-- A type goes on. -/
  | type (inParentheses : Bool)
  /-- Behind a type a unit may follow. -/
  | note (inParentheses : Bool)
  /-- A unit goes on. -/
  | unit (inParentheses : Bool)
  deriving DecidableEq, Repr

/-- Whether a layout text may be over here. -/
def Place.isFinal : Place → Bool
  | start | closed => true
  | opened | comma _ => false
  | declared inParentheses => !inParentheses

/-- What a character begins that belongs to no blank. -/
def Place.next? : Place → Char → Option Progress
  | start, c =>
    if Text.isNameChar c then some (.name false)
    else if c = '(' then some (.blank opened)
    else none
  | opened, c =>
    if Text.isNameChar c then some (.name true)
    else if c = ')' then some (.blank closed)
    else none
  | declared inParentheses, c =>
    if c = ',' then some (.blank (comma inParentheses))
    else if inParentheses ∧ c = ')' then some (.blank closed)
    else none
  | comma inParentheses, c => if Text.isNameChar c then some (.name inParentheses) else none
  | closed, _ => none

namespace Progress

/-- Whether a layout text may be over with this progress. -/
def isFinal : Progress → Bool
  | blank place | comment place => place.isFinal
  | type inParentheses | note inParentheses => !inParentheses
  | hyphen _ | carriageReturn _ | name _ | gap _ | unit _ => false

/-- The progress between blanks, one character on. -/
def stepBlank (place : Place) (c : Char) : Option Progress :=
  if isLayoutSpace c then some (blank place)
  else if c = '-' then some (hyphen place)
  else place.next? c

/-- The progress behind a type, one character on. -/
def stepNote (inParentheses : Bool) (c : Char) : Option Progress :=
  if isGap c then some (note inParentheses)
  else if c = '\x7b' then some (unit inParentheses)
  else stepBlank (.declared inParentheses) c

/-- The progress one character on, if a layout text may go on with that character. -/
def step : Progress → Char → Option Progress
  | blank place, c => stepBlank place c
  | hyphen place, c => if c = '-' then some (comment place) else none
  | comment place, c =>
    if c = '\n' then some (blank place)
    else if c = '\r' then some (carriageReturn place)
    else some (comment place)
  | carriageReturn place, c => if c = '\n' then some (blank place) else none
  | name inParentheses, c =>
    if Text.isNameChar c then some (name inParentheses)
    else if isGap c then some (gap inParentheses)
    else none
  | gap inParentheses, c =>
    if isGap c then some (gap inParentheses)
    else if Text.isNameChar c then some (type inParentheses)
    else none
  | type inParentheses, c =>
    if Text.isNameChar c then some (type inParentheses)
    else if c = '?' then some (note inParentheses)
    else stepNote inParentheses c
  | note inParentheses, c => stepNote inParentheses c
  | unit inParentheses, c =>
    if c = '\x7d' then some (blank (.declared inParentheses))
    else if c = '\n' then none
    else some (unit inParentheses)

/-- The progress behind some characters, if a layout text may go on with them. -/
def run (s : Progress) (cs : List Char) : Option Progress :=
  cs.foldlM step s

theorem run_cons (s : Progress) (c : Char) (cs : List Char) :
    s.run (c :: cs) = (s.step c).bind fun s' => s'.run cs := rfl

/-- A text is followed part by part. -/
theorem run_append (s : Progress) (cs ds : List Char) :
    s.run (cs ++ ds) = (s.run cs).bind fun s' => s'.run ds :=
  List.foldlM_append

/-! ## What comes of a text -/

/-- There is no way through a text, and this shows before the end of its first line. -/
inductive Stuck : Progress → List Char → Prop
  /-- The text is over too soon. -/
  | ended {s : Progress} : s.isFinal = false → Stuck s []
  /-- The next character leads nowhere. -/
  | dead {s : Progress} {c : Char} {rest : List Char} : s.step c = none → Stuck s (c :: rest)
  /-- The next character leads to where there is no way through the rest. -/
  | half {s s' : Progress} {c : Char} {rest : List Char} : c ≠ '\n' → s.step c = some s' →
    Stuck s' rest → Stuck s (c :: rest)

/-- What comes of a text: it is read to its end, or followed to a text on which the progress is
stuck. -/
inductive Ends : Progress → List Char → Option (List Char) → Prop
  /-- The text may be over, and is. -/
  | ended {s : Progress} : s.isFinal = true → Ends s [] none
  /-- The progress is stuck. -/
  | stuck {s : Progress} {stop : List Char} : Stuck s stop → Ends s stop (some stop)
  /-- The text goes on. -/
  | step {s s' : Progress} {c : Char} {rest : List Char} {e : Option (List Char)} :
    s.step c = some s' → Ends s' rest e → Ends s (c :: rest) e

/-- Whether a progress is stuck is up to where the first character leads. -/
theorem Stuck.congr {s s' : Progress} {c : Char} {rest : List Char} (hs : Stuck s (c :: rest))
    (h : s.step c = s'.step c) : Stuck s' (c :: rest) := by
  cases hs with
  | dead hstep => exact .dead (h ▸ hstep)
  | half hc hstep hrest => exact .half hc (h ▸ hstep) hrest

/-- What comes of a text is up to where its first character leads. -/
theorem Ends.congr {s s' : Progress} {c : Char} {rest : List Char} {e : Option (List Char)}
    (hs : Ends s (c :: rest) e) (h : s.step c = s'.step c) : Ends s' (c :: rest) e := by
  cases hs with
  | stuck hstuck => exact .stuck (hstuck.congr h)
  | step hstep hrest => exact .step (h ▸ hstep) hrest

/-- Of the empty text comes what the progress decides. -/
theorem Ends.congr_nil {s s' : Progress} {e : Option (List Char)} (hs : Ends s [] e)
    (h : s.isFinal = s'.isFinal) : Ends s' [] e := by
  cases hs with
  | ended hfinal => exact .ended (h ▸ hfinal)
  | stuck hstuck =>
    cases hstuck with
    | ended hfinal => exact .stuck (.ended (h ▸ hfinal))

/-- A line feed is passed if it leads anywhere. -/
theorem Ends.of_lineFeed {s s' : Progress} {rest : List Char} {e : Option (List Char)}
    (hstep : s.step '\n' = some s') (h : Ends s ('\n' :: rest) e) : Ends s' rest e := by
  cases h with
  | stuck hstuck =>
    cases hstuck with
    | dead hdead => rw [hdead] at hstep; cases hstep
    | half hc => exact absurd rfl hc
  | step hfirst hrest =>
    rw [hstep] at hfirst
    cases hfirst
    exact hrest

/-- A progress is stuck where no character can be next and the text may not be over. -/
theorem stuck_of_head {s : Progress} {cs : List Char} (hfinal : s.isFinal = false)
    (h : ∀ c ∈ cs.head?, s.step c = none) : Stuck s cs := by
  cases cs with
  | nil => exact .ended hfinal
  | cons c rest => exact .dead (h c rfl)

/-- Characters that change nothing are passed. -/
theorem ends_of_dropWhile {s : Progress} {p : Char → Bool} {cs : List Char}
    {e : Option (List Char)} (hp : ∀ c, p c = true → s.step c = some s)
    (h : Ends s (cs.dropWhile p) e) : Ends s cs e := by
  induction cs with
  | nil => exact h
  | cons c rest ih =>
    by_cases hc : p c = true
    · rw [List.dropWhile_cons_of_pos hc] at h
      exact .step (hp c hc) (ih h)
    · rwa [List.dropWhile_cons_of_neg hc] at h

/-- A run of characters of one kind is passed. -/
theorem ends_of_run {s s' : Progress} {p : Char → Bool} {cs : List Char} {e : Option (List Char)}
    (hfirst : ∀ c, p c = true → s.step c = some s') (hothers : ∀ c, p c = true → s'.step c = some s')
    (hne : ¬ (cs.takeWhile p).isEmpty = true) (h : Ends s' (cs.dropWhile p) e) : Ends s cs e := by
  cases cs with
  | nil => exact absurd rfl hne
  | cons c rest =>
    by_cases hc : p c = true
    · rw [List.dropWhile_cons_of_pos hc] at h
      exact .step (hfirst c hc) (ends_of_dropWhile hothers h)
    · rw [List.takeWhile_cons_of_neg hc] at hne
      exact absurd rfl hne

/-! ## Blanks -/

/-- Blanks change nothing between the parts of a layout. -/
theorem step_blank_space {place : Place} {c : Char} (h : isLayoutSpace c = true) :
    (blank place).step c = some (blank place) :=
  if_pos h

/-- Behind a comment blanks go on. -/
theorem ends_comment {place : Place} {body after : List Char} {e : Option (List Char)}
    (hbody : afterComment? body = some after) (h : Ends (blank place) after e) :
    Ends (comment place) body e := by
  fun_induction afterComment? body with
  | case1 =>
    cases hbody
    exact h.congr_nil rfl
  | case2 rest =>
    cases hbody
    exact h.congr rfl
  | case3 rest =>
    cases hbody
    -- both line ends lead back to blanks, and none of them can be where the progress is stuck
    have hrest : Ends (blank place) rest e := by
      cases h with
      | stuck hstuck =>
        cases hstuck with
        | dead hdead => cases hdead
        | half _ hstep hlineFeed =>
          cases hstep
          cases hlineFeed with
          | dead hdead => cases hdead
          | half hc => exact absurd rfl hc
      | step hstep hlineFeed =>
        cases hstep
        exact hlineFeed.of_lineFeed rfl
    exact .step rfl (.step rfl hrest)
  | case4 => cases hbody
  | case5 c rest hfeed _ hreturn ih =>
    have hstep : (comment place).step c = some (comment place) :=
      (if_neg hfeed).trans (if_neg hreturn)
    exact .step hstep (ih hbody)

/-- What comes of a text behind its blanks comes of the text. -/
theorem ends_of_skipBlank {place : Place} {cs : List Char} {e : Option (List Char)}
    (h : Ends (blank place) (skipBlank cs) e) : Ends (blank place) cs e := by
  fun_induction skipBlank cs with
  | case1 => exact h
  | case2 c rest hc ih => exact .step (step_blank_space hc) (ih h)
  | case3 body after hbody _ ih => exact .step rfl (.step rfl (ends_comment hbody (ih h)))
  | case4 | case5 | case6 => exact h

/-- There is no way through a comment that does not end as comments do. -/
theorem stuck_comment {place : Place} {body : List Char} (h : afterComment? body = none) :
    Stuck (comment place) body := by
  fun_induction afterComment? body with
  | case1 | case2 | case3 => cases h
  | case4 rest hrest =>
    refine .half (by decide) rfl (stuck_of_head rfl fun c hc => if_neg ?_)
    rintro rfl
    obtain ⟨tail, rfl⟩ := List.head?_eq_some_iff.mp hc
    exact hrest tail rfl
  | case5 c rest hfeed _ hreturn ih =>
    have hstep : (comment place).step c = some (comment place) :=
      (if_neg hfeed).trans (if_neg hreturn)
    exact .half hfeed hstep (ih h)

/-- There is no way through a hyphen that begins no comment. -/
theorem stuck_hyphen {place : Place} {rest : List Char} (h : skipBlank ('-' :: rest) = '-' :: rest) :
    Stuck (blank place) ('-' :: rest) := by
  refine .half (by decide) rfl ?_
  cases rest with
  | nil => exact .ended rfl
  | cons c body =>
    by_cases hc : c = '-'
    · subst hc
      refine .half (by decide) rfl (stuck_comment ?_)
      cases hbody : afterComment? body with
      | none => rfl
      | some after =>
        -- a comment would have been skipped
        rw [skipBlank_comment hbody] at h
        have hlength := congrArg List.length h
        have hskip := length_skipBlank_le after
        have hafter := length_afterComment?_le hbody
        simp only [List.length_cons] at hlength
        omega
    · exact .dead (if_neg hc)

/-- Where blanks end, the progress is stuck if what follows begins nothing. -/
theorem stuck_blank {place : Place} {cs : List Char} (hskip : skipBlank cs = cs)
    (hfinal : cs = [] → place.isFinal = false) (hnext : ∀ c ∈ cs.head?, place.next? c = none) :
    Stuck (blank place) cs := by
  cases cs with
  | nil => exact .ended (hfinal rfl)
  | cons c rest =>
    by_cases hspace : isLayoutSpace c = true
    · rw [skipBlank_space hspace] at hskip
      have hlength := congrArg List.length hskip
      have hle := length_skipBlank_le rest
      simp only [List.length_cons] at hlength
      omega
    · by_cases hhyphen : c = '-'
      · subst hhyphen
        exact stuck_hyphen hskip
      · exact .dead (((if_neg hspace).trans (if_neg hhyphen)).trans (hnext c rfl))

/-- Behind blanks there are no more of them. -/
theorem skipBlank_skipBlank (cs : List Char) : skipBlank (skipBlank cs) = skipBlank cs :=
  (skipBlank_of_blanks (blanks_skipBlank cs)).symm

end Progress

end CaptureIngest.Layout
