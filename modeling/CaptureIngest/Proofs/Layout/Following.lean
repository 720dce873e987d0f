import CaptureIngest.Proofs.Layout.Progress

/-!
# Readers as they follow a layout text

What the readers of layout texts do, told by the progress of the text. A reader may go back before it
stops, and still the progress is stuck on what it hands over.

* **Declarations** (`ends_of_readUnit`, `ends_of_readType`, `ends_of_readDeclaration`): what comes of
  the text that a reader leaves comes of the whole text, and where a reader stops the progress is
  stuck.
* **Lists** (`ends_of_readMore`, `ends_of_readDeclarations`): so it is for declarations behind one
  another. `Closes` says that nothing can follow the last one but the end of the list.
* **Whole texts** (`ends_of_readLayout`): the reader of layout texts reads a text to its end, or stops
  where the progress is stuck.
-/

namespace CaptureIngest.Layout

namespace Progress

/-! ## Declarations -/

/-- What is to come of a text of which a reader has read a part, with the progress behind it. -/
def Comes (s : Progress) (e : Option (List Char)) {α : Type} :
    Except (List Char) (α × List Char) → Prop
  | .error stop => e = some stop
  | .ok (_, rest) => Ends s rest e

section

variable {inParentheses : Bool} {e : Option (List Char)}

/-- Where no brace opens, what may follow a declaration may follow its type. -/
theorem step_note_of_not_gap {c : Char} (hgap : ¬ isGap c = true) (hbrace : c ≠ '\x7b') :
    (note inParentheses).step c = (blank (.declared inParentheses)).step c :=
  (if_neg hgap).trans (if_neg hbrace)

/-- Spaces change nothing in front of a unit. -/
theorem step_note_gap {c : Char} (h : isGap c = true) :
    (note inParentheses).step c = some (note inParentheses) :=
  if_pos h

/-- Spaces change nothing between the parts of a layout. -/
theorem step_blank_gap {place : Place} {c : Char} (h : isGap c = true) :
    (blank place).step c = some (blank place) := by
  refine step_blank_space ?_
  simp only [isGap, Bool.or_eq_true] at h
  simp only [isLayoutSpace, Bool.or_eq_true, h, true_or]

/-- A gap is no line feed. -/
theorem ne_lineFeed_of_isGap {c : Char} (h : isGap c = true) : c ≠ '\n' := by
  rintro rfl
  exact absurd h (by decide)

/-- Where no brace opens behind the gap, a progress that is stuck behind a declaration is stuck behind
its type. -/
theorem stuck_note {cs : List Char} (hbrace : ∀ body, cs.dropWhile isGap ≠ '\x7b' :: body)
    (h : Stuck (blank (.declared inParentheses)) cs) : Stuck (note inParentheses) cs := by
  induction cs with
  | nil =>
    cases h with
    | ended hfinal => exact .ended hfinal
  | cons c rest ih =>
    by_cases hc : isGap c = true
    · rw [List.dropWhile_cons_of_pos hc] at hbrace
      cases h with
      | dead hdead =>
        rw [step_blank_gap hc] at hdead
        cases hdead
      | half _ hstep hrest =>
        rw [step_blank_gap hc] at hstep
        cases hstep
        exact .half (ne_lineFeed_of_isGap hc) (step_note_gap hc) (ih hbrace hrest)
    · rw [List.dropWhile_cons_of_neg hc] at hbrace
      refine h.congr (step_note_of_not_gap hc ?_).symm
      rintro rfl
      exact hbrace rest rfl

/-- Where no brace opens behind the gap, what comes of a text behind a declaration comes of it behind
the type. -/
theorem ends_note {cs : List Char} (hbrace : ∀ body, cs.dropWhile isGap ≠ '\x7b' :: body)
    (h : Ends (blank (.declared inParentheses)) cs e) : Ends (note inParentheses) cs e := by
  induction cs with
  | nil => exact h.congr_nil rfl
  | cons c rest ih =>
    by_cases hc : isGap c = true
    · cases h with
      | stuck hstuck => exact .stuck (stuck_note hbrace hstuck)
      | step hstep hrest =>
        rw [step_blank_gap hc] at hstep
        cases hstep
        rw [List.dropWhile_cons_of_pos hc] at hbrace
        exact .step (step_note_gap hc) (ih hbrace hrest)
    · rw [List.dropWhile_cons_of_neg hc] at hbrace
      refine h.congr (step_note_of_not_gap hc ?_).symm
      rintro rfl
      exact hbrace rest rfl

/-- What comes of a text behind its unit comes of the text. -/
theorem ends_of_readUnit {cs : List Char}
    (h : Comes (blank (.declared inParentheses)) e (readUnit cs)) :
    Ends (note inParentheses) cs e := by
  unfold readUnit at h
  split at h
  · next body hbody =>
    refine ends_of_dropWhile (fun c hc => step_note_gap hc) ?_
    have hopen : (note inParentheses).step '\x7b' = some (unit inParentheses) := rfl
    rw [hbody]
    refine .step hopen ?_
    have hinside : ∀ c, (c != '\x7d' && c != '\n') = true →
        (unit inParentheses).step c = some (unit inParentheses) := by
      intro c hc
      simp only [Bool.and_eq_true, bne_iff_ne, ne_eq] at hc
      exact (if_neg hc.1).trans (if_neg hc.2)
    refine ends_of_dropWhile hinside ?_
    have hhead := List.head?_dropWhile_not (fun c => c != '\x7d' && c != '\n') body
    split at h
    · next rest hrest =>
      rw [hrest]
      exact .step rfl h
    · next hstop =>
      cases h
      refine .stuck (stuck_of_head rfl fun c hc => ?_)
      obtain ⟨tail, htail⟩ := List.head?_eq_some_iff.mp hc
      rw [htail] at hhead hstop
      -- the unit stops at a brace or at a line feed, and here it is no brace
      have hbrace : c ≠ '\x7d' := fun hc => hstop tail (hc ▸ rfl)
      have hfeed : c = '\n' := by simpa [hbrace] using hhead
      exact (if_neg hbrace).trans (if_pos hfeed)
  · next hno => exact ends_note hno h

/-- A question mark behind a type is passed. -/
theorem ends_of_readMark {cs : List Char} (hname : ∀ c ∈ cs.head?, Text.isNameChar c = false)
    (h : Ends (note inParentheses) (readMark cs).2 e) : Ends (type inParentheses) cs e := by
  unfold readMark at h
  split at h
  · next rest => exact .step rfl h
  · next hno =>
    cases cs with
    | nil => exact h.congr_nil rfl
    | cons c rest =>
      have hmark : c ≠ '?' := fun hc => hno rest (hc ▸ rfl)
      have hchar : ¬ Text.isNameChar c = true := by simp [hname c rfl]
      exact h.congr ((if_neg hchar).trans (if_neg hmark)).symm

/-- What is left of a text behind a run of characters does not begin with one more of them. -/
theorem not_of_head?_dropWhile {p : Char → Bool} {cs : List Char} :
    ∀ c ∈ (cs.dropWhile p).head?, p c = false := by
  intro c hc
  have hhead := List.head?_dropWhile_not p cs
  rw [Option.mem_def.mp hc] at hhead
  exact hhead

/-- A text without a run of characters at its beginning does not begin with one of them. -/
theorem not_of_isEmpty_takeWhile {p : Char → Bool} {cs : List Char}
    (h : (cs.takeWhile p).isEmpty = true) : ∀ c ∈ cs.head?, p c = false := by
  intro c hc
  obtain ⟨tail, rfl⟩ := List.head?_eq_some_iff.mp hc
  by_contra hp
  rw [List.takeWhile_cons_of_pos (by simpa using hp)] at h
  cases h

/-- What comes of a text behind its type comes of the text. -/
theorem ends_of_readType {n : String} {cs : List Char} (hgap : ∀ c ∈ cs.head?, isGap c = false)
    (h : Comes (blank (.declared inParentheses)) e (readType n cs)) :
    Ends (gap inParentheses) cs e := by
  unfold readType at h
  split at h
  · next hname =>
    cases h
    refine .stuck (stuck_of_head rfl fun c hc => ?_)
    have hgap : ¬ isGap c = true := by simp [hgap c hc]
    have hchar : ¬ Text.isNameChar c = true := by simp [not_of_isEmpty_takeWhile hname c hc]
    exact (if_neg hgap).trans (if_neg hchar)
  · next hname =>
    have hfirst : ∀ c, Text.isNameChar c = true →
        (gap inParentheses).step c = some (type inParentheses) := by
      intro c hc
      have hgap : ¬ isGap c = true := by simp [not_gap_of_isNameChar hc]
      exact (if_neg hgap).trans (if_pos hc)
    refine ends_of_run hfirst (fun c hc => if_pos hc) hname ?_
    refine ends_of_readMark not_of_head?_dropWhile (ends_of_readUnit ?_)
    dsimp only at h
    split at h
    · next stop hunit =>
      rw [hunit]
      exact h
    · next u rest hunit =>
      rw [hunit]
      exact h

/-- A name begins where a declaration may stand. -/
theorem step_blank_isNameChar {place : Place} {c : Char} {s : Progress}
    (hplace : place.next? c = some s) (h : Text.isNameChar c = true) :
    (blank place).step c = some s := by
  obtain ⟨hspace, hhyphen⟩ := not_space_of_isNameChar h
  have hspace : ¬ isLayoutSpace c = true := by simp [hspace]
  exact ((if_neg hspace).trans (if_neg hhyphen)).trans hplace

/-- What comes of a text behind its declaration comes of the text, wherever a declaration may
stand. -/
theorem ends_of_readDeclaration {place : Place} {cs : List Char}
    (hplace : ∀ c, Text.isNameChar c = true → place.next? c = some (name inParentheses))
    (hmissing : (cs.takeWhile Text.isNameChar).isEmpty = true → Stuck (blank place) cs)
    (h : Comes (blank (.declared inParentheses)) e (readDeclaration cs)) :
    Ends (blank place) cs e := by
  unfold readDeclaration at h
  split at h
  · next hname =>
    cases h
    exact .stuck (hmissing hname)
  · next hname =>
    refine ends_of_run (fun c hc => step_blank_isNameChar (hplace c hc) hc)
      (fun c hc => if_pos hc) hname ?_
    dsimp only at h
    split at h
    · next hgap =>
      cases h
      refine .stuck (stuck_of_head rfl fun c hc => ?_)
      have hchar : ¬ Text.isNameChar c = true := by simp [not_of_head?_dropWhile c hc]
      have hgap : ¬ isGap c = true := by simp [not_of_isEmpty_takeWhile hgap c hc]
      exact (if_neg hchar).trans (if_neg hgap)
    · next hgap =>
      have hfirst : ∀ c, isGap c = true →
          (name inParentheses).step c = some (gap inParentheses) := by
        intro c hc
        have hchar : ¬ Text.isNameChar c = true := by
          intro hname
          rw [not_gap_of_isNameChar hname] at hc
          cases hc
        exact (if_neg hchar).trans (if_pos hc)
      exact ends_of_run hfirst (fun c hc => if_pos hc) hgap
        (ends_of_readType not_of_head?_dropWhile h)

/-! ## Lists of declarations -/

/-- What comes of a text behind more declarations comes of the text. -/
theorem ends_of_readMore {cs : List Char}
    (h : Comes (blank (.declared inParentheses)) e (readMore cs)) :
    Ends (blank (.declared inParentheses)) cs e := by
  have hcomma : ∀ {rest : List Char}, Comes (blank (.declared inParentheses)) e
      (readDeclaration (skipBlank rest)) → Ends (blank (.declared inParentheses)) (',' :: rest) e := by
    intro rest h
    have hstep : (blank (.declared inParentheses)).step ',' =
        some (blank (.comma inParentheses)) := rfl
    refine .step hstep (ends_of_skipBlank ?_)
    refine ends_of_readDeclaration (fun c hc => if_pos hc) (fun hname => ?_) h
    refine stuck_blank (skipBlank_skipBlank rest) (fun _ => rfl) fun c hc => if_neg ?_
    simp [not_of_isEmpty_takeWhile hname c hc]
  fun_induction readMore cs with
  | case1 cs afterComma hcs stop hd =>
    refine ends_of_skipBlank (hcs ▸ hcomma ?_)
    rw [hd]
    exact h
  | case2 cs afterComma hcs d rest hd stop hmore ih =>
    refine ends_of_skipBlank (hcs ▸ hcomma ?_)
    rw [hd]
    refine ih ?_
    rw [hmore]
    exact h
  | case3 cs afterComma hcs d rest hd ds rest' hmore ih =>
    refine ends_of_skipBlank (hcs ▸ hcomma ?_)
    rw [hd]
    refine ih ?_
    rw [hmore]
    exact h
  | case4 cs hno => exact h

/-- A list of declarations may close here: between blanks at `place`, in front of `rest`, the only way
on is the closing parenthesis of the list, if there is one. -/
structure Closes (inParentheses : Bool) (place : Place) (rest : List Char) : Prop where
  /-- The text may be over if there is no parenthesis to be closed. -/
  isFinal : place.isFinal = !inParentheses
  /-- Nothing else follows. -/
  next : ∀ c ∈ (skipBlank rest).head?,
    place.next? c = if inParentheses ∧ c = ')' then some (blank .closed) else none

/-- No comma follows the declarations that are read behind a first one. -/
theorem closes_of_readMore {cs rest : List Char} {ds : List Declaration}
    (h : readMore cs = .ok (ds, rest)) : Closes inParentheses (.declared inParentheses) rest := by
  refine ⟨rfl, fun c hc => ?_⟩
  obtain ⟨tail, htail⟩ := List.head?_eq_some_iff.mp hc
  have hcomma : ¬ c = ',' := by
    rintro rfl
    fun_induction readMore cs generalizing ds with
    | case1 | case2 => cases h
    | case3 cs afterComma hcs d after hd ds' rest' hmore ih =>
      cases h
      exact ih hmore
    | case4 cs hno =>
      cases h
      exact hno tail htail
  exact if_neg hcomma

/-- What comes of a text behind its declarations comes of the text, wherever a list of them may
stand. -/
theorem ends_of_readDeclarations (place : Place) (inParentheses : Bool) (cs : List Char)
    (hplace : ∀ c, Text.isNameChar c = true → place.next? c = some (name inParentheses))
    (hclose : (∀ c ∈ cs.head?, Text.isNameChar c = false) → Closes inParentheses place cs) :
    (∀ stop, readDeclarations cs = .error stop → Ends (blank place) cs (some stop)) ∧
      ∀ ds rest, readDeclarations cs = .ok (ds, rest) →
        ∃ behind, Closes inParentheses behind rest ∧
          ∀ e, Ends (blank behind) rest e → Ends (blank place) cs e := by
  unfold readDeclarations
  by_cases hname : (cs.takeWhile Text.isNameChar).isEmpty = true
  · rw [if_pos hname]
    refine ⟨nofun, ?_⟩
    rintro ds rest ⟨⟩
    exact ⟨place, hclose (not_of_isEmpty_takeWhile hname), fun e h => h⟩
  · rw [if_neg hname]
    have hfirst : ∀ {e}, Comes (blank (.declared inParentheses)) e (readDeclaration cs) →
        Ends (blank place) cs e :=
      ends_of_readDeclaration hplace fun h => absurd h hname
    cases hd : readDeclaration cs with
    | error stop =>
      rw [hd] at hfirst
      refine ⟨?_, nofun⟩
      rintro stop ⟨⟩
      exact hfirst rfl
    | ok result =>
      obtain ⟨d, after⟩ := result
      rw [hd] at hfirst
      cases hmore : readMore after with
      | error stop =>
        simp only [hmore]
        refine ⟨?_, nofun⟩
        rintro stop ⟨⟩
        refine hfirst (ends_of_readMore ?_)
        rw [hmore]
        rfl
      | ok result =>
        obtain ⟨ds, behind⟩ := result
        simp only [hmore]
        refine ⟨nofun, ?_⟩
        rintro ds rest ⟨⟩
        refine ⟨.declared inParentheses, closes_of_readMore hmore, fun e h => ?_⟩
        refine hfirst (ends_of_readMore ?_)
        rw [hmore]
        exact h

end

/-! ## Whole texts -/

/-- What comes of a text that closes here if nothing is to be closed: it is over, or what is left
stops the reader. -/
theorem Closes.stuck {inParentheses : Bool} {place : Place} {rest : List Char}
    (h : Closes inParentheses place rest) (hover : inParentheses = false → skipBlank rest ≠ [])
    (hparen : inParentheses = true → ∀ tail, skipBlank rest ≠ ')' :: tail) :
    Ends (blank place) rest (some (skipBlank rest)) := by
  refine ends_of_skipBlank (.stuck (stuck_blank (skipBlank_skipBlank rest) (fun hnil => ?_)
    fun c hc => ?_))
  · rw [h.isFinal]
    cases inParentheses with
    | true => rfl
    | false => exact absurd hnil (hover rfl)
  · rw [h.next c hc]
    refine if_neg ?_
    rintro ⟨hin, rfl⟩
    obtain ⟨tail, htail⟩ := List.head?_eq_some_iff.mp hc
    exact hparen hin tail htail

/-- Behind the closing parenthesis there are blanks only. -/
theorem ends_closed (rest : List Char) :
    Ends (blank .closed) rest (if skipBlank rest = [] then none else some (skipBlank rest)) := by
  refine ends_of_skipBlank ?_
  by_cases hnil : skipBlank rest = []
  · rw [if_pos hnil, hnil]
    exact .ended rfl
  · rw [if_neg hnil]
    exact .stuck (stuck_blank (skipBlank_skipBlank rest) (fun h => absurd h hnil) fun c _ => rfl)

/-- Where a result says that the reader stopped, if it did. -/
def stopOf : Except (List Char) (List Declaration) → Option (List Char)
  | .ok _ => none
  | .error stop => some stop

/-- A list without declarations closes behind its opening parenthesis. -/
theorem closes_opened {cs : List Char} (h : ∀ c ∈ (skipBlank cs).head?, Text.isNameChar c = false) :
    Closes true .opened (skipBlank cs) := by
  refine ⟨rfl, fun c hc => ?_⟩
  rw [skipBlank_skipBlank] at hc
  have hname : ¬ Text.isNameChar c = true := by simp [h c hc]
  simp [Place.next?, hname]

/-- A text without declarations and without parentheses is over behind its blanks. -/
theorem closes_start {cs : List Char} (h : ∀ c ∈ (skipBlank cs).head?, Text.isNameChar c = false)
    (hparen : ∀ inside, skipBlank cs ≠ '(' :: inside) : Closes false .start (skipBlank cs) := by
  refine ⟨rfl, fun c hc => ?_⟩
  rw [skipBlank_skipBlank] at hc
  have hname : ¬ Text.isNameChar c = true := by simp [h c hc]
  have hopen : c ≠ '(' := by
    rintro rfl
    obtain ⟨inside, hinside⟩ := List.head?_eq_some_iff.mp hc
    exact hparen inside hinside
  simp [Place.next?, hname, hopen]

/-- Behind the declarations in parentheses the closing parenthesis follows, and behind it blanks. -/
theorem Closes.ends_inParentheses {place : Place} {rest after : List Char}
    (h : Closes true place rest) (hrest : skipBlank rest = ')' :: after) :
    Ends (blank place) rest (if skipBlank after = [] then none else some (skipBlank after)) := by
  have hstep : (blank place).step ')' = some (blank .closed) := h.next ')' (by rw [hrest]; rfl)
  refine ends_of_skipBlank ?_
  rw [hrest]
  exact .step hstep (ends_closed after)

/-- Behind the declarations without parentheses the text is over. -/
theorem Closes.ends_bare {place : Place} {rest : List Char} (h : Closes false place rest)
    (hrest : skipBlank rest = []) : Ends (blank place) rest none := by
  refine ends_of_skipBlank ?_
  rw [hrest]
  exact .ended h.isFinal

/-- **Whole texts**: what comes of a text is what the reader makes of it. -/
theorem ends_of_readLayout {cs : List Char} {result : Except (List Char) (List Declaration)}
    (h : readLayout cs = result) : Ends (blank .start) cs (stopOf result) := by
  refine ends_of_skipBlank ?_
  unfold readLayout at h
  split at h
  · next inside hopen =>
    have hstep : (blank .start).step '(' = some (blank .opened) := rfl
    rw [hopen]
    refine .step hstep (ends_of_skipBlank ?_)
    obtain ⟨herror, hok⟩ := ends_of_readDeclarations .opened true (skipBlank inside)
      (fun c hc => if_pos hc) closes_opened
    split at h
    · next stop hds =>
      subst h
      exact herror stop hds
    · next ds rest hds =>
      obtain ⟨behind, hcloses, hends⟩ := hok ds rest hds
      refine hends _ ?_
      split at h
      · next after hrest =>
        have hafter := hcloses.ends_inParentheses hrest
        split at h
        · next hnil =>
          subst h
          rwa [if_pos hnil] at hafter
        · next hne =>
          subst h
          rwa [if_neg hne] at hafter
      · next hno =>
        subst h
        exact hcloses.stuck (fun h => Bool.noConfusion h) fun _ tail => hno tail
  · next hparen =>
    obtain ⟨herror, hok⟩ := ends_of_readDeclarations .start false (skipBlank cs)
      (fun c hc => if_pos hc) fun hname => closes_start hname hparen
    split at h
    · next stop hds =>
      subst h
      exact herror stop hds
    · next ds rest hds =>
      obtain ⟨behind, hcloses, hends⟩ := hok ds rest hds
      refine hends _ ?_
      split at h
      · next hnil =>
        subst h
        exact hcloses.ends_bare hnil
      · next hne =>
        subst h
        exact hcloses.stuck (fun _ => hne) fun h => Bool.noConfusion h

end Progress

end CaptureIngest.Layout
