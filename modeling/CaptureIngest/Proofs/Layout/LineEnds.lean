import CaptureIngest.Proofs.Layout.Cases
import CaptureIngest.Proofs.Layout.StopLine

/-!
# Line ends of layout texts

The lines of a layout text may end in a line feed, or in a carriage return and a line feed. The two
texts are read alike: they give the same fields, or are refused for the same reason on the same line.

* `Text.withReturns s`: the text `s` with a carriage return in front of every line feed.
* **Characters** (`Text.takeWhile_addReturns`, `Text.dropWhile_addReturns`): a run of characters to
  which no line end belongs stays the same, and what is left behind it differs in its carriage returns
  alone.
* `StopsAlike stop stop'`, `ReadsAlike x y`, `EndsAlike x y`: what a reader leaves, gives and makes of
  the two texts. Where it stops, the carriage return of a line end may have been read already, since a
  unit may hold it.
* **Parts** (`readsAlike_readDeclaration`, `readsAlike_readMore`, `endsAlike_readLayout`): each part of
  the reader reads the two texts alike.
* **Whole texts** (`readFields_withReturns`): fields and reports are the same.
-/

namespace CaptureIngest

namespace Text

/-! ## Carriage returns -/

/-- One character, with a carriage return in front of it if it is a line feed. -/
def addReturn (c : Char) : List Char :=
  if c = '\n' then ['\r', '\n'] else [c]

/-- The characters of a text, with a carriage return in front of every line feed. -/
def addReturns (cs : List Char) : List Char :=
  cs.flatMap addReturn

/-- A text with a carriage return and a line feed in the place of every line feed. -/
def withReturns (s : String) : String :=
  String.ofList (addReturns s.toList)

/-- Nothing is added to a text without characters. -/
@[simp]
theorem addReturns_nil : addReturns [] = [] := rfl

/-- A line feed gets a carriage return in front of it. -/
@[simp]
theorem addReturns_lineFeed (cs : List Char) :
    addReturns ('\n' :: cs) = '\r' :: '\n' :: addReturns cs := rfl

/-- Any other character stays as it is. -/
theorem addReturns_cons {c : Char} (h : c ≠ '\n') (cs : List Char) :
    addReturns (c :: cs) = c :: addReturns cs := by
  rw [addReturns, List.flatMap_cons, addReturn, if_neg h]
  rfl

/-- Two texts one behind the other get their carriage returns apart. -/
theorem addReturns_append (cs ds : List Char) :
    addReturns (cs ++ ds) = addReturns cs ++ addReturns ds :=
  List.flatMap_append

/-- No text is empty unless it was empty before. -/
@[simp]
theorem addReturns_eq_nil_iff {cs : List Char} : addReturns cs = [] ↔ cs = [] := by
  cases cs with
  | nil => simp
  | cons c cs =>
    by_cases h : c = '\n'
    · simp [h]
    · simp [addReturns_cons h]

/-- Where there is no line feed, nothing is added. -/
theorem addReturns_of_not_mem {cs : List Char} (h : '\n' ∉ cs) : addReturns cs = cs := by
  induction cs with
  | nil => rfl
  | cons c cs ih =>
    rw [List.mem_cons, not_or] at h
    rw [addReturns_cons (Ne.symm h.1), ih h.2]

/-- Line feeds are as many as before. -/
theorem count_addReturns (cs : List Char) : (addReturns cs).count '\n' = cs.count '\n' := by
  induction cs with
  | nil => rfl
  | cons c cs ih =>
    by_cases h : c = '\n'
    · subst h
      simp [ih]
    · simp [addReturns_cons h, h, ih]

/-- No text begins with a character of no line end unless it did before. -/
theorem addReturns_ne_cons {c : Char} (hr : c ≠ '\r') {cs : List Char} (h : ∀ rest, cs ≠ c :: rest) :
    ∀ rest, addReturns cs ≠ c :: rest := by
  cases cs with
  | nil => exact fun rest => (List.cons_ne_nil c rest).symm
  | cons d cs =>
    intro rest heq
    by_cases hd : d = '\n'
    · subst hd
      rw [addReturns_lineFeed] at heq
      exact hr (List.cons.inj heq).1.symm
    · rw [addReturns_cons hd] at heq
      obtain ⟨rfl, -⟩ := List.cons.inj heq
      exact h cs rfl

section

variable {p : Char → Bool}

/-- What stands in front of a line feed stays as it is. -/
theorem addReturns_eq_takeWhile_append (hn : p '\n' = false) (cs : List Char) :
    addReturns cs = cs.takeWhile p ++ addReturns (cs.dropWhile p) := by
  have hmem : '\n' ∉ cs.takeWhile p := fun h => by
    have hp := List.all_eq_true.mp List.all_takeWhile '\n' h
    rw [hn] at hp
    cases hp
  conv_lhs => rw [← List.takeWhile_append_dropWhile (p := p) (l := cs)]
  rw [addReturns_append, addReturns_of_not_mem hmem]

/-- What is left behind characters of one kind, to which no line end belongs. -/
theorem dropWhile_addReturns (hr : p '\r' = false) (hn : p '\n' = false) (cs : List Char) :
    (addReturns cs).dropWhile p = addReturns (cs.dropWhile p) := by
  induction cs with
  | nil => rfl
  | cons c cs ih =>
    by_cases hc : c = '\n'
    · subst hc
      rw [addReturns_lineFeed, List.dropWhile_cons_of_neg (by simp [hr]),
        List.dropWhile_cons_of_neg (by simp [hn]), addReturns_lineFeed]
    · rw [addReturns_cons hc]
      by_cases hp : p c = true
      · rw [List.dropWhile_cons_of_pos hp, List.dropWhile_cons_of_pos hp, ih]
      · rw [List.dropWhile_cons_of_neg hp, List.dropWhile_cons_of_neg hp, addReturns_cons hc]

/-- Characters of one kind, to which no line end belongs, stay as they are. -/
theorem takeWhile_addReturns (hr : p '\r' = false) (hn : p '\n' = false) (cs : List Char) :
    (addReturns cs).takeWhile p = cs.takeWhile p := by
  have hsame := (List.takeWhile_append_dropWhile (p := p) (l := addReturns cs)).trans
    (addReturns_eq_takeWhile_append hn cs)
  rw [dropWhile_addReturns hr hn] at hsame
  exact List.append_cancel_right hsame

end

end Text

namespace Layout

open Text

/-! ## Blanks -/

/-- A comment ends in front of its line end, whichever that is. -/
theorem afterComment?_addReturns {cs : List Char} (h : '\r' ∉ cs) :
    afterComment? (addReturns cs) = (afterComment? cs).map addReturns := by
  induction cs with
  | nil => rfl
  | cons c cs ih =>
    rw [List.mem_cons, not_or] at h
    by_cases hc : c = '\n'
    · subst hc
      simp [afterComment?]
    · have hr : c ≠ '\r' := Ne.symm h.1
      have hstep : ∀ rest, afterComment? (c :: rest) = afterComment? rest := fun rest =>
        afterComment?.eq_5 c rest hc (fun _ hc' => absurd hc' hr) hr
      rw [addReturns_cons hc, hstep, hstep, ih h.2]

/-- Blanks end in front of the same text. -/
theorem skipBlank_addReturns {cs : List Char} (h : '\r' ∉ cs) :
    skipBlank (addReturns cs) = addReturns (skipBlank cs) := by
  have hhyphen : ∀ rest, addReturns ('-' :: rest) = '-' :: addReturns rest :=
    addReturns_cons (by decide)
  fun_induction skipBlank cs with
  | case1 => rw [addReturns_nil, skipBlank]
  | case2 c rest hc ih =>
    have hrest := ih (List.not_mem_of_not_mem_cons h)
    by_cases hfeed : c = '\n'
    · subst hfeed
      rw [addReturns_lineFeed, skipBlank_space (by decide), skipBlank_space (by decide), hrest]
    · rw [addReturns_cons hfeed, skipBlank_space hc, hrest]
  | case3 body after hafter _ ih =>
    obtain ⟨hbody, hafter'⟩ : '\r' ∉ body ∧ '\r' ∉ after := by
      obtain ⟨front, rfl, -, -⟩ := exists_of_afterComment?_eq_some hafter
      simp_all
    rw [hhyphen, hhyphen, skipBlank_comment (by rw [afterComment?_addReturns hbody, hafter]; rfl),
      ih hafter']
  | case4 body hafter =>
    have hbody : '\r' ∉ body := fun hmem => h (by simp [hmem])
    rw [hhyphen, hhyphen, skipBlank_of_afterComment?]
    rw [afterComment?_addReturns hbody, hafter]
    rfl
  | case5 rest hno =>
    rw [hhyphen, skipBlank_hyphen (addReturns_ne_cons (by decide) hno)]
  | case6 c rest hspace hc =>
    have hfeed : c ≠ '\n' := by
      rintro rfl
      exact hspace rfl
    rw [addReturns_cons hfeed, skipBlank_of_ne (by simpa using hspace) hc]

/-! ## Parts of a declaration -/

/-- The reader stops in front of the same text, but that it may have taken the carriage return of the
line end in front of which it stops for a character of a unit. -/
inductive StopsAlike : List Char → List Char → Prop
  /-- In front of a text. -/
  | front (stop : List Char) : StopsAlike stop (addReturns stop)
  /-- Inside a line end. -/
  | inside (rest : List Char) : StopsAlike ('\n' :: rest) ('\n' :: addReturns rest)

/-- The same is read of a text and of the text with carriage returns: something, and what is left
differs in its carriage returns, or nothing. -/
def ReadsAlike {α : Type} (x y : Except (List Char) (α × List Char)) : Prop :=
  (∃ a rest, x = .ok (a, rest) ∧ y = .ok (a, addReturns rest) ∧ '\r' ∉ rest) ∨
    ∃ stop stop', x = .error stop ∧ y = .error stop' ∧ StopsAlike stop stop'

/-- The two texts give the same. -/
theorem ReadsAlike.ok {α : Type} (a : α) {rest : List Char} (h : '\r' ∉ rest) :
    ReadsAlike (.ok (a, rest)) (.ok (a, addReturns rest)) :=
  .inl ⟨a, rest, rfl, rfl, h⟩

/-- The two texts stop the reader alike. -/
theorem ReadsAlike.error {α : Type} {stop stop' : List Char} (h : StopsAlike stop stop') :
    ReadsAlike (α := α) (.error stop) (.error stop') :=
  .inr ⟨stop, stop', rfl, rfl, h⟩

/-- Question marks are read alike. -/
theorem readMark_addReturns (cs : List Char) :
    readMark (addReturns cs) = ((readMark cs).1, addReturns (readMark cs).2) := by
  by_cases hmark : ∃ rest, cs = '?' :: rest
  · obtain ⟨rest, rfl⟩ := hmark
    rw [addReturns_cons (by decide)]
    rfl
  · have hne : ∀ rest, cs ≠ '?' :: rest := fun rest hcs => hmark ⟨rest, hcs⟩
    rw [readMark_of_ne hne, readMark_of_ne (addReturns_ne_cons (by decide) hne)]

/-- A unit ends with the same brace, or stops the reader in front of the same line end. -/
theorem dropWhile_isUnitChar_addReturns (body : List Char) :
    (∃ rest, body.dropWhile isUnitChar = '\x7d' :: rest ∧
      (addReturns body).takeWhile isUnitChar = body.takeWhile isUnitChar ∧
      (addReturns body).dropWhile isUnitChar = '\x7d' :: addReturns rest) ∨
    (∀ rest, body.dropWhile isUnitChar ≠ '\x7d' :: rest) ∧
      (∀ rest, (addReturns body).dropWhile isUnitChar ≠ '\x7d' :: rest) ∧
      StopsAlike (body.dropWhile isUnitChar) ((addReturns body).dropWhile isUnitChar) := by
  have hall : ∀ c ∈ body.takeWhile isUnitChar, isUnitChar c = true :=
    List.all_eq_true.mp List.all_takeWhile
  have hhead := List.head?_dropWhile_not isUnitChar body
  -- in front of the place where the unit ends nothing is added
  rw [addReturns_eq_takeWhile_append (p := isUnitChar) (by decide) body,
    List.takeWhile_append_of_pos hall, List.dropWhile_append_of_pos hall]
  cases hstop : body.dropWhile isUnitChar with
  | nil => exact .inr ⟨nofun, nofun, .front []⟩
  | cons c rest =>
    rw [hstop] at hhead
    by_cases hclose : c = '\x7d'
    · subst hclose
      refine .inl ⟨rest, rfl, ?_, ?_⟩
      · rw [addReturns_cons (by decide), List.takeWhile_cons_of_neg (by decide), List.append_nil]
      · rw [addReturns_cons (by decide), List.dropWhile_cons_of_neg (by decide)]
    · obtain rfl : c = '\n' := by simpa [isUnitChar, hclose] using hhead
      have hinside : (addReturns ('\n' :: rest)).dropWhile isUnitChar =
          '\n' :: addReturns rest := by
        rw [addReturns_lineFeed, List.dropWhile_cons_of_pos (by decide),
          List.dropWhile_cons_of_neg (by decide)]
      rw [hinside]
      exact .inr ⟨nofun, nofun, .inside rest⟩

/-- No carriage return is left where there was none. -/
theorem not_mem_dropWhile {p : Char → Bool} {cs : List Char} (h : '\r' ∉ cs) :
    '\r' ∉ cs.dropWhile p :=
  fun hmem => h ((List.dropWhile_suffix p).mem hmem)

/-- Nor is one left behind blanks. -/
theorem not_mem_skipBlank {cs : List Char} (h : '\r' ∉ cs) : '\r' ∉ skipBlank cs :=
  fun hmem => h ((skipBlank_suffix cs).mem hmem)

/-- Units are read alike. -/
theorem readsAlike_readUnit {cs : List Char} (h : '\r' ∉ cs) :
    ReadsAlike (readUnit cs) (readUnit (addReturns cs)) := by
  by_cases hopen : ∃ body, cs.dropWhile isGap = '\x7b' :: body
  · obtain ⟨body, hbody⟩ := hopen
    have hbody' : (addReturns cs).dropWhile isGap = '\x7b' :: addReturns body := by
      rw [dropWhile_addReturns (by decide) (by decide), hbody, addReturns_cons (by decide)]
    have hmem : '\r' ∉ '\x7b' :: body := hbody ▸ not_mem_dropWhile h
    rcases dropWhile_isUnitChar_addReturns body with
      ⟨rest, hrest, htake, hdrop⟩ | ⟨hclose, hclose', hstop⟩
    · rw [readUnit_of_closed hbody hrest, readUnit_of_closed hbody' hdrop, htake]
      have hmem : '\r' ∉ '\x7d' :: rest :=
        hrest ▸ not_mem_dropWhile (List.not_mem_of_not_mem_cons hmem)
      exact .ok _ (List.not_mem_of_not_mem_cons hmem)
    · rw [readUnit_of_not_closed hbody hclose, readUnit_of_not_closed hbody' hclose']
      exact .error hstop
  · have hopen : ∀ body, cs.dropWhile isGap ≠ '\x7b' :: body := fun body hbody => hopen ⟨body, hbody⟩
    have hopen' : ∀ body, (addReturns cs).dropWhile isGap ≠ '\x7b' :: body := by
      rw [dropWhile_addReturns (by decide) (by decide)]
      exact addReturns_ne_cons (by decide) hopen
    rw [readUnit_of_not_open hopen, readUnit_of_not_open hopen']
    exact .ok none h

/-- What stands behind the name of a declaration is read alike. -/
theorem readsAlike_readType (name : String) {cs : List Char} (h : '\r' ∉ cs) :
    ReadsAlike (readType name cs) (readType name (addReturns cs)) := by
  have htake := takeWhile_addReturns (p := Text.isNameChar) (by decide) (by decide) cs
  have hdrop := dropWhile_addReturns (p := Text.isNameChar) (by decide) (by decide) cs
  simp only [readType, htake, hdrop, readMark_addReturns]
  split
  · exact .error (.front cs)
  · have hmark : '\r' ∉ (readMark (cs.dropWhile Text.isNameChar)).2 := fun hmem =>
      not_mem_dropWhile h ((readMark_suffix _).mem hmem)
    rcases readsAlike_readUnit hmark with
      ⟨u, rest, hunit, hunit', hrest⟩ | ⟨stop, stop', hunit, hunit', hstop⟩
    · rw [hunit, hunit']
      exact .ok _ hrest
    · rw [hunit, hunit']
      exact .error hstop

/-- **Parts**: declarations are read alike. -/
theorem readsAlike_readDeclaration {cs : List Char} (h : '\r' ∉ cs) :
    ReadsAlike (readDeclaration cs) (readDeclaration (addReturns cs)) := by
  have htake := takeWhile_addReturns (p := Text.isNameChar) (by decide) (by decide) cs
  have hdrop := dropWhile_addReturns (p := Text.isNameChar) (by decide) (by decide) cs
  have hgapTake := takeWhile_addReturns (p := isGap) (by decide) (by decide)
  have hgapDrop := dropWhile_addReturns (p := isGap) (by decide) (by decide)
  simp only [readDeclaration, htake, hdrop, hgapTake, hgapDrop]
  split
  · exact .error (.front cs)
  · split
    · exact .error (.front _)
    · exact readsAlike_readType _ (not_mem_dropWhile (not_mem_dropWhile h))

/-! ## Lists of declarations -/

/-- What is read behind a declaration is read alike if the rest is. -/
theorem ReadsAlike.cons {x y : Except (List Char) (List Declaration × List Char)}
    (h : ReadsAlike x y) (d : Declaration) :
    ReadsAlike (x.map fun more => (d :: more.1, more.2))
      (y.map fun more => (d :: more.1, more.2)) := by
  rcases h with ⟨ds, rest, rfl, rfl, hrest⟩ | ⟨stop, stop', rfl, rfl, hstop⟩
  · exact .ok _ hrest
  · exact .error hstop

/-- A character that is no line end stands behind the same blanks. -/
theorem skipBlank_addReturns_cons {cs rest : List Char} {c : Char} (h : '\r' ∉ cs) (hc : c ≠ '\n')
    (hskip : skipBlank cs = c :: rest) : skipBlank (addReturns cs) = c :: addReturns rest := by
  rw [skipBlank_addReturns h, hskip, addReturns_cons hc]

/-- A character that is no line end does not stand behind the blanks of one of the two texts only. -/
theorem skipBlank_addReturns_ne {cs : List Char} {c : Char} (h : '\r' ∉ cs) (hc : c ≠ '\r')
    (hskip : ∀ rest, skipBlank cs ≠ c :: rest) : ∀ rest, skipBlank (addReturns cs) ≠ c :: rest := by
  rw [skipBlank_addReturns h]
  exact addReturns_ne_cons hc hskip

/-- Behind a comma the same declaration is read, or none. -/
theorem readsAlike_behind_comma {cs afterComma : List Char} (h : '\r' ∉ cs)
    (hskip : skipBlank cs = ',' :: afterComma) :
    ReadsAlike (readDeclaration (skipBlank afterComma))
      (readDeclaration (skipBlank (addReturns afterComma))) := by
  have hmem : '\r' ∉ ',' :: afterComma := hskip ▸ not_mem_skipBlank h
  have hafter := List.not_mem_of_not_mem_cons hmem
  rw [skipBlank_addReturns hafter]
  exact readsAlike_readDeclaration (not_mem_skipBlank hafter)

/-- **Parts**: so are the rests of lists. -/
theorem readsAlike_readMore {cs : List Char} (h : '\r' ∉ cs) :
    ReadsAlike (readMore cs) (readMore (addReturns cs)) := by
  fun_induction readMore cs with
  | case1 cs afterComma hskip stop hd =>
    have hskip' := skipBlank_addReturns_cons h (by decide) hskip
    rcases readsAlike_behind_comma h hskip with
      ⟨d, rest, hd', -, -⟩ | ⟨stop', stop'', hd', hd'', hstop⟩
    · cases hd.symm.trans hd'
    · cases hd.symm.trans hd'
      rw [readMore_of_error hskip' hd'']
      exact .error hstop
  | case2 cs afterComma hskip d rest hd _ hmore ih
  | case3 cs afterComma hskip d rest hd _ _ hmore ih =>
    have hskip' := skipBlank_addReturns_cons h (by decide) hskip
    rcases readsAlike_behind_comma h hskip with
      ⟨d', rest', hd', hd'', hrest⟩ | ⟨stop', stop'', hd', -, -⟩
    · cases hd.symm.trans hd'
      rw [readMore_of_ok hskip' hd'']
      have hrest := ih hrest
      rw [hmore] at hrest
      exact hrest.cons d
    · cases hd.symm.trans hd'
  | case4 cs hno =>
    rw [readMore_of_ne (skipBlank_addReturns_ne h (by decide) hno)]
    exact .ok [] h

/-- Lists of declarations are read alike. -/
theorem readsAlike_readDeclarations {cs : List Char} (h : '\r' ∉ cs) :
    ReadsAlike (readDeclarations cs) (readDeclarations (addReturns cs)) := by
  have htake := takeWhile_addReturns (p := Text.isNameChar) (by decide) (by decide) cs
  by_cases hname : (cs.takeWhile Text.isNameChar).isEmpty = true
  · rw [readDeclarations, readDeclarations, htake, if_pos hname, if_pos hname]
    exact .ok [] h
  · rcases readsAlike_readDeclaration h with
      ⟨d, rest, hd, hd', hrest⟩ | ⟨stop, stop', hd, hd', hstop⟩
    · rw [readDeclarations_of_ok hd, readDeclarations_of_ok hd']
      exact (readsAlike_readMore hrest).cons d
    · rw [readDeclarations_of_error hname hd, readDeclarations_of_error (htake ▸ hname) hd']
      exact .error hstop

/-! ## Whole texts -/

/-- The same declarations come of a text and of the text with carriage returns, or the reader stops
alike. -/
def EndsAlike (x y : Except (List Char) (List Declaration)) : Prop :=
  (∃ ds, x = .ok ds ∧ y = .ok ds) ∨
    ∃ stop stop', x = .error stop ∧ y = .error stop' ∧ StopsAlike stop stop'

/-- Where nothing may stand behind the blanks, the two texts are over alike. -/
theorem endsAlike_atEnd (ds : List Declaration) (stop : List Char) :
    EndsAlike (atEnd ds stop) (atEnd ds (addReturns stop)) := by
  by_cases hstop : stop = []
  · subst hstop
    exact .inl ⟨ds, rfl, rfl⟩
  · have hstop' : addReturns stop ≠ [] := by simpa using hstop
    exact .inr ⟨stop, addReturns stop, atEnd_of_ne_nil hstop, atEnd_of_ne_nil hstop', .front stop⟩

/-- Where a parenthesis has to close, it closes in both texts or in none. -/
theorem endsAlike_atClosing (ds : List Declaration) {stop : List Char} (h : '\r' ∉ stop) :
    EndsAlike (atClosing ds stop) (atClosing ds (addReturns stop)) := by
  by_cases hclose : ∃ after, stop = ')' :: after
  · obtain ⟨after, rfl⟩ := hclose
    rw [addReturns_cons (by decide), atClosing, atClosing,
      skipBlank_addReturns (List.not_mem_of_not_mem_cons h)]
    exact endsAlike_atEnd ds (skipBlank after)
  · have hstop : ∀ after, stop ≠ ')' :: after := fun after hafter => hclose ⟨after, hafter⟩
    have hstop' := addReturns_ne_cons (by decide) hstop
    exact .inr ⟨stop, addReturns stop, atClosing_of_ne hstop, atClosing_of_ne hstop', .front stop⟩

/-- What comes of declarations that are read alike. -/
theorem ReadsAlike.bind {x y : Except (List Char) (List Declaration × List Char)}
    {next : List Declaration → List Char → Except (List Char) (List Declaration)}
    (h : ReadsAlike x y)
    (hnext : ∀ ds stop, '\r' ∉ stop → EndsAlike (next ds stop) (next ds (addReturns stop))) :
    EndsAlike (x.bind fun r => next r.1 (skipBlank r.2))
      (y.bind fun r => next r.1 (skipBlank r.2)) := by
  rcases h with ⟨ds, rest, rfl, rfl, hrest⟩ | ⟨stop, stop', rfl, rfl, hstop⟩
  · show EndsAlike (next ds (skipBlank rest)) (next ds (skipBlank (addReturns rest)))
    rw [skipBlank_addReturns hrest]
    exact hnext ds (skipBlank rest) (not_mem_skipBlank hrest)
  · exact .inr ⟨stop, stop', rfl, rfl, hstop⟩

/-- **Parts**: whole texts are read alike. -/
theorem endsAlike_readLayout {cs : List Char} (h : '\r' ∉ cs) :
    EndsAlike (readLayout cs) (readLayout (addReturns cs)) := by
  by_cases hopen : ∃ inside, skipBlank cs = '(' :: inside
  · obtain ⟨inside, hinside⟩ := hopen
    have hmem : '\r' ∉ '(' :: inside := hinside ▸ not_mem_skipBlank h
    have hmem := List.not_mem_of_not_mem_cons hmem
    rw [readLayout_of_open hinside,
      readLayout_of_open (skipBlank_addReturns_cons h (by decide) hinside), skipBlank_addReturns hmem]
    exact (readsAlike_readDeclarations (not_mem_skipBlank hmem)).bind fun ds _ =>
      endsAlike_atClosing ds
  · have hopen : ∀ inside, skipBlank cs ≠ '(' :: inside := fun inside hinside =>
      hopen ⟨inside, hinside⟩
    rw [readLayout_of_not_open hopen,
      readLayout_of_not_open (skipBlank_addReturns_ne h (by decide) hopen), skipBlank_addReturns h]
    exact (readsAlike_readDeclarations (not_mem_skipBlank h)).bind fun ds stop _ =>
      endsAlike_atEnd ds stop

/-! ## Reports -/

/-- The line on which the reader stops is the same but for the carriage return at its end. -/
theorem takeWhile_feed_addReturns (stop : List Char) :
    trimmed ((addReturns stop).takeWhile (· != '\n')) = trimmed (stop.takeWhile (· != '\n')) := by
  rw [addReturns_eq_takeWhile_append (p := (· != '\n')) (by decide) stop,
    List.takeWhile_append_of_pos (List.all_eq_true.mp List.all_takeWhile)]
  have hhead := List.head?_dropWhile_not (· != '\n') stop
  cases hrest : stop.dropWhile (· != '\n') with
  | nil => rw [addReturns_nil, List.takeWhile_nil, List.append_nil]
  | cons c rest =>
    rw [hrest] at hhead
    obtain rfl : c = '\n' := by simpa using hhead
    exact trimmed_append_of_blank _ (by simp [isWhiteSpace])

/-- What is met where the reader stops is the same. -/
theorem StopsAlike.unexpected_eq {stop stop' : List Char} (h : StopsAlike stop stop') :
    unexpected stop' = unexpected stop := by
  cases h with
  | front =>
    simp only [unexpected, List.isEmpty_iff, addReturns_eq_nil_iff, trim, String.toList_ofList,
      takeWhile_feed_addReturns]
  | inside rest => rfl

/-- The reader of the text with carriage returns stops behind as many line feeds. -/
theorem StopsAlike.stopDefect_eq {passed stop stop' : List Char} (h : StopsAlike stop stop') :
    stopDefect (addReturns (passed ++ stop)) stop' = stopDefect (passed ++ stop) stop := by
  have hsplit : ∃ passed', addReturns (passed ++ stop) = passed' ++ stop' ∧
      passed'.count '\n' = passed.count '\n' := by
    rw [addReturns_append]
    cases h with
    | front => exact ⟨addReturns passed, rfl, count_addReturns passed⟩
    | inside rest =>
      refine ⟨addReturns passed ++ ['\r'], ?_, ?_⟩
      · rw [addReturns_lineFeed, List.append_assoc, List.singleton_append]
      · rw [List.count_append, count_addReturns]
        rfl
  obtain ⟨passed', hpassed, hcount⟩ := hsplit
  rw [hpassed, stopDefect_append, stopDefect_append, hcount, h.unexpected_eq]

/-- **Whole texts**: a text without carriage returns and the text with one in front of every line
feed give the same fields, or are refused for the same reason on the same line. -/
theorem readFields_withReturns {text : String} (h : '\r' ∉ text.toList) :
    readFields (withReturns text) = readFields text := by
  rw [readFields, readFields, withReturns, String.toList_ofList]
  rcases endsAlike_readLayout h with ⟨ds, hds, hds'⟩ | ⟨stop, stop', hstop, hstop', halike⟩
  · rw [hds, hds']
    cases ds <;> rfl
  · obtain ⟨passed, -, -, -, htext, -⟩ := Progress.exists_halts_of_readLayout hstop
    rw [hstop, hstop']
    dsimp only
    rw [htext, halike.stopDefect_eq]

/-- A unit that is not closed on its line: with carriage returns the reader takes one of them for a
character of the unit, and reports the same. -/
theorem readFields_withReturns_openUnit :
    '\r' ∉ "\na u8 \x7bbytes\n".toList ∧
      withReturns "\na u8 \x7bbytes\n" = "\r\na u8 \x7bbytes\r\n" ∧
      readFields "\r\na u8 \x7bbytes\r\n" = .error (.unreadable 2 .endOfLine) := by
  have h : '\r' ∉ "\na u8 \x7bbytes\n".toList := by decide
  have htext : withReturns "\na u8 \x7bbytes\n" = "\r\na u8 \x7bbytes\r\n" := by decide
  have hread : readLayout "\na u8 \x7bbytes\n".toList = .error "\n".toList := by
    simp [readLayout, skipBlank, isLayoutSpace, readDeclarations, readDeclaration, readType, readMark,
      readUnit, isGap, Text.isNameChar]
  refine ⟨h, htext, ?_⟩
  rw [← htext, readFields_withReturns h, readFields, hread]
  rfl

end Layout

end CaptureIngest
