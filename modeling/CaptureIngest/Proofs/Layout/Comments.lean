import CaptureIngest.Proofs.Layout.Cases
import CaptureIngest.Proofs.Layout.StopLine

/-!
# Comments in layout texts

A comment that is put into a layout text, on the rest of a line of its own, is one more blank: the
fields stay the same. But a carriage return ends a comment only together with a line feed, and anywhere
else it makes the whole text unreadable.

* `TakesComment cs v`: a comment may be put into the text `cs` in front of its end `v`. That is at the
  beginning, at the end, behind the opening parenthesis, or behind a comma between declarations.
* **Phrases** (`Blanks.exists_phrase`, `Declares.exists_phrase`, `More.exists_phrase`): the characters
  of a phrase make the same phrase in front of another text, as long as that does not continue a name.
* **Places** (`TakesComment.exists_readLayout_eq`): what is read in front of a place does not depend on
  what follows, and of what follows only its first blanks may differ.
* **Bodies** (`blanks_comment`, `run_comment_eq_none`): a body without a stray carriage return is
  skipped with its line end, and no other body is.
* **Whole texts** (`readFields_insertComment`): with the comment the text gives the same fields, or is
  unreadable, and the carriage returns of its body decide which.
-/

namespace CaptureIngest.Layout

/-! ## Phrases -/

/-- What does not continue a name does not do so behind characters after which it could stand. -/
theorem EndsName.append {x rest rest' : List Char} (h : EndsName (x ++ rest)) (h' : EndsName rest') :
    EndsName (x ++ rest') := by
  cases x with
  | nil => exact h'
  | cons c x => exact h

/-- A character that is no part of a name ends one. -/
theorem endsName_cons {c : Char} (h : Text.isNameChar c = false) (cs : List Char) :
    EndsName (c :: cs) := by
  intro d hd
  obtain rfl : c = d := by simpa using hd
  exact h

/-- Blanks do not continue a name. -/
theorem EndsName.of_blanks {cs rest : List Char} (h : Blanks cs rest) (hrest : EndsName rest) :
    EndsName cs := by
  cases h with
  | none => exact hrest
  | @space c cs rest hc _ =>
    refine endsName_cons ?_ cs
    by_contra hname
    have hspace := (not_space_of_isNameChar (by simpa using hname)).1
    rw [hc] at hspace
    cases hspace
  | comment => exact endsName_cons (by decide) _

/-- A comment ends where it ended if the text differs behind its next character only. -/
theorem EndsComment.of_append_cons {x r : List Char} {c : Char} (hc : c ≠ '\r')
    (h : EndsComment (x ++ c :: r)) (r' : List Char) : EndsComment (x ++ c :: r') := by
  generalize htext : x ++ c :: r = text at h
  rcases h with _ | _ | _
  · simp at htext
  · obtain ⟨rfl, hfeed⟩ | ⟨x', rfl, -⟩ := List.append_eq_cons_iff.mp htext
    · obtain ⟨rfl, -⟩ := List.cons.inj hfeed
      exact .lineFeed
    · exact .lineFeed
  · obtain ⟨rfl, hreturn⟩ | ⟨x', rfl, hfeed⟩ := List.append_eq_cons_iff.mp htext
    · exact absurd (List.cons.inj hreturn).1 hc
    · obtain ⟨rfl, hfeed⟩ | ⟨x'', rfl, -⟩ := List.append_eq_cons_iff.mp hfeed.symm
      · obtain ⟨rfl, -⟩ := List.cons.inj hfeed
        exact .lineBreak
      · exact .lineBreak

/-- The characters of blanks are blanks in front of every text that begins with the same character. -/
theorem Blanks.exists_phrase {cs r : List Char} {c : Char} (h : Blanks cs (c :: r)) (hc : c ≠ '\r') :
    ∃ x, cs = x ++ c :: r ∧ ∀ r', Blanks (x ++ c :: r') (c :: r') := by
  generalize hrest : c :: r = rest at h
  induction h with
  | none => exact ⟨[], rfl, fun r' => .none⟩
  | @space d cs rest hd _ ih =>
    obtain ⟨x, rfl, hx⟩ := ih hrest
    exact ⟨d :: x, rfl, fun r' => .space hd (hx r')⟩
  | @comment body cs rest hbody hends _ ih =>
    obtain ⟨x, rfl, hx⟩ := ih hrest
    subst hrest
    refine ⟨'-' :: '-' :: (body ++ x), by simp, fun r' => ?_⟩
    rw [List.cons_append, List.cons_append, List.append_assoc]
    exact .comment hbody (hends.of_append_cons hc r') (hx r')

/-- A name character is no carriage return. -/
theorem ne_return_of_isNameChar {c : Char} (h : Text.isNameChar c = true) : c ≠ '\r' := by
  rintro rfl
  exact absurd h (by decide)

/-- Blanks are skipped up to a character that begins none. -/
theorem Blanks.skipBlank_eq {cs r : List Char} {c : Char} (h : Blanks cs (c :: r))
    (hspace : isLayoutSpace c = false) (hhyphen : c ≠ '-') : skipBlank cs = c :: r := by
  rw [skipBlank_of_blanks h, skipBlank_of_ne hspace hhyphen]

/-- A name is there in front of whatever may follow a name. -/
theorem Name.exists_phrase {s : String} {cs rest : List Char} (h : Name s cs rest) :
    ∃ c x, Text.isNameChar c = true ∧ cs = c :: (x ++ rest) ∧ EndsName rest ∧
      ∀ rest', EndsName rest' → Name s (c :: (x ++ rest')) rest' := by
  obtain ⟨hne, hs, hends⟩ := h
  cases hl : s.toList with
  | nil => exact absurd hl hne
  | cons c x =>
    refine ⟨c, x, hs c (by simp [hl]), rfl, hends, fun rest' hends' => ?_⟩
    have hname := Name.run hne hs hends'
    rwa [hl] at hname

/-- A gap is there in front of any text. -/
theorem Gap.exists_phrase {cs rest : List Char} (h : Gap cs rest) :
    ∃ x, cs = x ++ rest ∧ ∀ rest', Gap (x ++ rest') rest' := by
  induction h with
  | none => exact ⟨[], rfl, fun rest' => .none⟩
  | @space c cs rest hc _ ih =>
    obtain ⟨x, rfl, hx⟩ := ih
    exact ⟨c :: x, rfl, fun rest' => .space hc (hx rest')⟩

/-- A question mark, or none, is there in front of any text. -/
theorem Mark.exists_phrase {b : Bool} {cs rest : List Char} (h : Mark b cs rest) :
    ∃ x, cs = x ++ rest ∧ ∀ rest', Mark b (x ++ rest') rest' := by
  cases h with
  | mark => exact ⟨['?'], rfl, fun rest' => .mark⟩
  | none => exact ⟨[], rfl, fun rest' => .none⟩

/-- A unit, or none, is there in front of any text. -/
theorem UnitNote.exists_phrase {u : Option String} {cs rest : List Char} (h : UnitNote u cs rest) :
    ∃ x, cs = x ++ rest ∧ ∀ rest', UnitNote u (x ++ rest') rest' := by
  cases h with
  | none => exact ⟨[], rfl, fun rest' => .none⟩
  | @braces s cs rest hgap hs =>
    obtain ⟨x, rfl, hx⟩ := hgap.exists_phrase
    refine ⟨x ++ '\x7b' :: (s.toList ++ ['\x7d']), by simp, fun rest' => .braces ?_ hs⟩
    have hgap' := hx ('\x7b' :: (s.toList ++ '\x7d' :: rest'))
    simpa using hgap'

/-- The characters of a declaration declare the same in front of every text that does not continue a
name. -/
theorem Declares.exists_phrase {d : Declaration} {cs rest : List Char} (h : Declares d cs rest) :
    ∃ c x, Text.isNameChar c = true ∧ cs = c :: (x ++ rest) ∧
      ∀ rest', EndsName rest' → Declares d (c :: (x ++ rest')) rest' := by
  cases h with
  | @parts c₀ cs afterName afterGap afterType afterMark rest hname hc hgap htype hmark hunit =>
    obtain ⟨xu, rfl, unit⟩ := hunit.exists_phrase
    obtain ⟨xm, rfl, mark⟩ := hmark.exists_phrase
    obtain ⟨ct, xt, -, rfl, hends, type⟩ := htype.exists_phrase
    obtain ⟨xg, rfl, gap⟩ := hgap.exists_phrase
    obtain ⟨cn, xn, hcn, rfl, hgapEnds, name⟩ := hname.exists_phrase
    refine ⟨cn, xn ++ c₀ :: (xg ++ ct :: (xt ++ (xm ++ xu))), hcn, by simp, fun rest' hrest' => ?_⟩
    -- the type stands directly in front of the rest if neither a mark nor a unit follows
    have hends' : EndsName (xm ++ (xu ++ rest')) := by
      rw [← List.append_assoc] at hends ⊢
      exact hends.append hrest'
    have hname' := name (c₀ :: (xg ++ ct :: (xt ++ (xm ++ (xu ++ rest'))))) hgapEnds
    have hdeclares := Declares.parts hname' hc (gap _) (type _ hends') (mark _) (unit rest')
    simpa using hdeclares

/-- A list that goes on does so with a comma, which continues no name. -/
theorem EndsName.of_more {ds : List Declaration} {cs rest : List Char} (h : More ds cs rest)
    (hrest : EndsName rest) : EndsName cs := by
  cases h with
  | none => exact hrest
  | next hcomma _ _ _ => exact .of_blanks hcomma (endsName_cons (by decide) _)

/-- The rest of a list is there in front of whatever may follow a name. -/
theorem More.exists_phrase {ds : List Declaration} {cs rest : List Char} (h : More ds cs rest) :
    ∃ x, cs = x ++ rest ∧ ∀ rest', EndsName rest' → More ds (x ++ rest') rest' := by
  induction h with
  | none => exact ⟨[], rfl, fun rest' _ => .none⟩
  | @next d ds cs afterBlanks start afterFirst rest hcomma hblanks hd _ ih =>
    obtain ⟨xs, rfl, more⟩ := ih
    obtain ⟨c, xd, hc, rfl, declaration⟩ := hd.exists_phrase
    obtain ⟨xb, rfl, blanks⟩ := hblanks.exists_phrase (ne_return_of_isNameChar hc)
    obtain ⟨xc, rfl, comma⟩ := hcomma.exists_phrase (by decide)
    refine ⟨xc ++ ',' :: (xb ++ c :: (xd ++ xs)), by simp, fun rest' hrest' => ?_⟩
    have hmore' := more rest' hrest'
    have hd' := declaration _ (.of_more hmore' hrest')
    have hnext := More.next (comma _) (blanks _) hd' hmore'
    simpa using hnext

/-- The characters of a list that begins with a declaration make the same list in front of every text
that does not continue a name. -/
theorem DeclaresAll.exists_phrase {d : Declaration} {ds : List Declaration} {cs rest : List Char}
    (h : DeclaresAll (d :: ds) cs rest) :
    ∃ c x, Text.isNameChar c = true ∧ cs = c :: (x ++ rest) ∧
      ∀ rest', EndsName rest' → DeclaresAll (d :: ds) (c :: (x ++ rest')) rest' := by
  cases h with
  | some hd hmore =>
    obtain ⟨xs, rfl, more⟩ := hmore.exists_phrase
    obtain ⟨c, xd, hc, rfl, declaration⟩ := hd.exists_phrase
    refine ⟨c, xd ++ xs, hc, by simp, fun rest' hrest' => ?_⟩
    have hmore' := more rest' hrest'
    have hd' := declaration _ (.of_more hmore' hrest')
    simpa using DeclaresAll.some hd' hmore'

/-! ## Lists up to a comma -/

/-- A list behind which a comma stands begins with a comma. -/
theorem More.exists_skipBlank {ds : List Declaration} {cs rest v : List Char} (h : More ds cs rest)
    (hcomma : Blanks rest (',' :: v)) : ∃ w, skipBlank cs = ',' :: w := by
  cases h with
  | none => exact ⟨v, hcomma.skipBlank_eq (by decide) (by decide)⟩
  | next hfirst _ _ _ => exact ⟨_, hfirst.skipBlank_eq (by decide) (by decide)⟩

/-- A declaration in front of a list behind which a comma stands is read to its end. -/
theorem readDeclaration_of_more {d : Declaration} {ds : List Declaration} {start cs rest v : List Char}
    (hd : Declares d start cs) (h : More ds cs rest) (hcomma : Blanks rest (',' :: v)) :
    readDeclaration start = .ok (d, cs) := by
  obtain ⟨w, hw⟩ := h.exists_skipBlank hcomma
  refine readDeclaration_of_declares hd fun c hc => .inl ?_
  rw [hw] at hc
  simpa using hc.symm

/-- A list behind which a comma stands is read up to there, and then what follows. -/
theorem readMore_of_more_comma {ds : List Declaration} {cs rest v : List Char} (h : More ds cs rest)
    (hcomma : Blanks rest (',' :: v)) :
    readMore cs = (readMore rest).map fun more => (ds ++ more.1, more.2) := by
  induction h with
  | none => cases readMore _ <;> rfl
  | @next d ds cs afterBlanks start afterFirst rest hfirst hblanks hd hmore ih =>
    have hstart := skipBlank_of_blanks hblanks
    rw [skipBlank_of_declares hd] at hstart
    have hread := readDeclaration_of_more hd hmore hcomma
    have hskip := hfirst.skipBlank_eq (by decide) (by decide)
    rw [readMore_of_ok hskip (hstart ▸ hread), ih hcomma]
    cases readMore rest <;> rfl

/-- In front of a comma a list of declarations is read, and then goes on. -/
theorem readDeclarations_of_more_comma {d : Declaration} {ds : List Declaration}
    {cs rest v : List Char} (h : DeclaresAll (d :: ds) cs rest) (hcomma : Blanks rest (',' :: v)) :
    readDeclarations cs = (readMore rest).map fun more => (d :: (ds ++ more.1), more.2) := by
  cases h with
  | some hd hmore =>
    rw [readDeclarations_of_ok (readDeclaration_of_more hd hmore hcomma),
      readMore_of_more_comma hmore hcomma]
    cases readMore rest <;> rfl

/-- Texts that begin with commas are read alike if they differ in blanks only. -/
theorem readMore_congr {cs cs' v v' : List Char} (h : Blanks cs (',' :: v))
    (h' : Blanks cs' (',' :: v')) (hv : skipBlank v' = skipBlank v) : readMore cs' = readMore cs := by
  have hcs := h.skipBlank_eq (by decide) (by decide)
  have hcs' := h'.skipBlank_eq (by decide) (by decide)
  cases hd : readDeclaration (skipBlank v) with
  | error stop => rw [readMore_of_error hcs hd, readMore_of_error hcs' (hv ▸ hd)]
  | ok r => rw [readMore_of_ok hcs hd, readMore_of_ok hcs' (hv ▸ hd)]

/-! ## Places for comments -/

/-- Blanks stand between the beginning of a text and its first declaration, and perhaps a parenthesis
among them. -/
inductive Opening : Bool → List Char → List Char → Prop
  /-- Blanks alone. -/
  | bare {cs start : List Char} : Blanks cs start → Opening false cs start
  /-- A parenthesis between blanks. -/
  | inParentheses {cs inside start : List Char} : Blanks cs ('(' :: inside) → Blanks inside start →
    Opening true cs start

/-- A comment may be put into a text in front of this end of it. -/
inductive TakesComment : List Char → List Char → Prop
  /-- At the beginning. -/
  | first {cs : List Char} : TakesComment cs cs
  /-- At the end. -/
  | last {cs : List Char} : TakesComment cs []
  /-- Behind the opening parenthesis. -/
  | opening {cs v : List Char} : Blanks cs ('(' :: v) → TakesComment cs v
  /-- Behind a comma that follows declarations. -/
  | comma {inParentheses : Bool} {d : Declaration} {ds : List Declaration}
    {cs start rest v : List Char} : Opening inParentheses cs start →
    DeclaresAll (d :: ds) start rest → Blanks rest (',' :: v) → TakesComment cs v

/-- What stands in front of a list of declarations stands in front of any list with the same first
character. -/
theorem Opening.exists_phrase {inParentheses : Bool} {cs r : List Char} {c : Char}
    (h : Opening inParentheses cs (c :: r)) (hc : c ≠ '\r') :
    ∃ x, cs = x ++ c :: r ∧ ∀ r', Opening inParentheses (x ++ c :: r') (c :: r') := by
  cases h with
  | bare hblanks =>
    obtain ⟨x, rfl, blanks⟩ := hblanks.exists_phrase hc
    exact ⟨x, rfl, fun r' => .bare (blanks r')⟩
  | inParentheses hopen hblanks =>
    obtain ⟨x, rfl, blanks⟩ := hblanks.exists_phrase hc
    obtain ⟨y, rfl, opening⟩ := hopen.exists_phrase (by decide)
    refine ⟨y ++ '(' :: x, by simp, fun r' => ?_⟩
    simpa using Opening.inParentheses (opening (x ++ c :: r')) (blanks r')

/-- What is read of a text is what is read of its declarations, if there are some. -/
theorem Opening.readLayout_congr {inParentheses : Bool} {cs cs' r r' : List Char} {c : Char}
    (h : Opening inParentheses cs (c :: r)) (h' : Opening inParentheses cs' (c :: r'))
    (hc : Text.isNameChar c = true) (hr : readDeclarations (c :: r') = readDeclarations (c :: r)) :
    readLayout cs' = readLayout cs := by
  obtain ⟨hspace, hhyphen⟩ := not_space_of_isNameChar hc
  cases h with
  | bare hblanks =>
    cases h' with
    | bare hblanks' =>
      have hstart := hblanks.skipBlank_eq hspace hhyphen
      have hstart' := hblanks'.skipBlank_eq hspace hhyphen
      have hparen : ∀ tail inside, c :: tail ≠ '(' :: inside := by
        rintro tail inside heq
        obtain rfl := (List.cons.inj heq).1
        exact absurd hc (by decide)
      rw [readLayout_of_not_open (hstart'.symm ▸ hparen r'),
        readLayout_of_not_open (hstart.symm ▸ hparen r), hstart, hstart', hr]
  | inParentheses hopen hblanks =>
    cases h' with
    | inParentheses hopen' hblanks' =>
      have hparen := hopen.skipBlank_eq (by decide) (by decide)
      have hparen' := hopen'.skipBlank_eq (by decide) (by decide)
      rw [readLayout_of_open hparen', readLayout_of_open hparen,
        hblanks.skipBlank_eq hspace hhyphen, hblanks'.skipBlank_eq hspace hhyphen, hr]

/-- **Places**: but for the end of a text, what is read does not change if the text behind the place
changes in its first blanks. -/
theorem TakesComment.exists_readLayout_eq {cs v : List Char} (h : TakesComment cs v) :
    v = [] ∨ ∃ x, cs = x ++ v ∧
      ∀ v', skipBlank v' = skipBlank v → readLayout (x ++ v') = readLayout cs := by
  cases h with
  | last => exact .inl rfl
  | first =>
    refine .inr ⟨[], rfl, fun v' hv => ?_⟩
    unfold readLayout
    rw [List.nil_append, hv]
  | opening hopen =>
    obtain ⟨x, rfl, opening⟩ := hopen.exists_phrase (by decide)
    have hskip : ∀ w, skipBlank (x ++ '(' :: w) = '(' :: w := fun w =>
      (opening w).skipBlank_eq (by decide) (by decide)
    refine .inr ⟨x ++ ['('], by simp, fun v' hv => ?_⟩
    rw [List.append_assoc, List.singleton_append, readLayout_of_open (hskip v'),
      readLayout_of_open (hskip v), hv]
  | comma hopening hds hcomma =>
    obtain ⟨xc, rfl, comma⟩ := hcomma.exists_phrase (by decide)
    obtain ⟨c, xd, hc, rfl, all⟩ := hds.exists_phrase
    obtain ⟨xo, rfl, opening⟩ := hopening.exists_phrase (ne_return_of_isNameChar hc)
    refine .inr ⟨xo ++ c :: (xd ++ (xc ++ [','])), by simp, fun v' hv => ?_⟩
    have hds' := all _ (.of_blanks (comma v') (endsName_cons (by decide) v'))
    have hread : readDeclarations (c :: (xd ++ (xc ++ ',' :: v'))) =
        readDeclarations (c :: (xd ++ (xc ++ ',' :: v))) := by
      rw [readDeclarations_of_more_comma hds' (comma v'), readDeclarations_of_more_comma hds hcomma,
        readMore_congr hcomma (comma v') hv]
    have hlayout := hopening.readLayout_congr (opening (xd ++ (xc ++ ',' :: v'))) hc hread
    simpa using hlayout

/-! ## Bodies of comments -/

section

variable {c : List Char} (hfeed : '\n' ∉ c)

include hfeed

/-- A body without a line feed, and with a carriage return at most at its end, is skipped together with
the line feed behind it. -/
theorem blanks_comment (hstray : '\r' ∉ c.dropLast) (v : List Char) :
    Blanks ('-' :: '-' :: (c ++ '\n' :: v)) v := by
  have hchars : ∀ {body : List Char}, '\n' ∉ body → '\r' ∉ body →
      ∀ d ∈ body, d ≠ '\n' ∧ d ≠ '\r' := by
    rintro body hn hr d hd
    exact ⟨fun h => hn (h ▸ hd), fun h => hr (h ▸ hd)⟩
  have hlineFeed : Blanks ('\n' :: v) v := .space (by decide) .none
  obtain rfl | ⟨body, last, rfl⟩ := List.eq_nil_or_concat c
  · exact .comment (hchars (List.not_mem_nil) List.not_mem_nil) .lineFeed hlineFeed
  · simp only [List.concat_eq_append, List.dropLast_concat, List.mem_append, not_or] at hfeed hstray ⊢
    by_cases hlast : last = '\r'
    · subst hlast
      rw [List.append_assoc]
      exact .comment (hchars hfeed.1 hstray) .lineBreak (.space (by decide) hlineFeed)
    · have hreturn : '\r' ∉ body ++ [last] := by simpa [hstray] using Ne.symm hlast
      exact .comment (hchars (by simpa using hfeed) hreturn) .lineFeed hlineFeed

/-- A comment may follow the blanks at the end of a text, even if they end inside a comment. -/
theorem Blanks.append_comment (hstray : '\r' ∉ c.dropLast) {cs : List Char} (h : Blanks cs []) :
    Blanks (cs ++ '-' :: '-' :: (c ++ ['\n'])) [] := by
  generalize hrest : [] = rest at h
  induction h with
  | none =>
    subst hrest
    exact blanks_comment hfeed hstray []
  | space hd _ ih => exact .space hd (ih hrest)
  | @comment body cs rest hbody hends _ ih =>
    have ih := ih hrest
    subst hrest
    rw [List.cons_append, List.cons_append, List.append_assoc]
    rcases hends with _ | _ | _
    · -- the comment goes on with the hyphens of the other one
      have hfeed' : '\n' ∉ body ++ '-' :: '-' :: c := by
        simpa [hfeed] using fun h => (hbody _ h).1 rfl
      have hstray' : '\r' ∉ (body ++ '-' :: '-' :: c).dropLast := by
        rw [List.dropLast_append_of_ne_nil (by simp), List.mem_append, not_or]
        refine ⟨fun h => (hbody _ h).2 rfl, ?_⟩
        cases c with
        | nil => simp
        | cons d c => simpa using hstray
      simpa using blanks_comment hfeed' hstray' []
    · exact .comment hbody .lineFeed ih
    · exact .comment hbody .lineBreak ih

/-- A comment may be put behind a layout text. -/
theorem IsLayoutOf.append_comment (hstray : '\r' ∉ c.dropLast) {d : Declaration}
    {ds : List Declaration} {cs : List Char} (h : IsLayoutOf (d :: ds) cs) :
    IsLayoutOf (d :: ds) (cs ++ '-' :: '-' :: (c ++ ['\n'])) := by
  have hnil : EndsName [] := nofun
  cases h with
  | bare hblanks hds hend =>
    obtain ⟨a, x, ha, rfl, all⟩ := hds.exists_phrase
    obtain ⟨y, rfl, blanks⟩ := hblanks.exists_phrase (ne_return_of_isNameChar ha)
    have hend' := hend.append_comment hfeed hstray
    have hds' := all _ (.of_blanks hend' hnil)
    simpa using IsLayoutOf.bare (blanks _) hds' hend'
  | @inParentheses inside start afterAll behind hopen hblanks hds hclose hend =>
    obtain ⟨z, rfl, close⟩ := hclose.exists_phrase (by decide)
    obtain ⟨a, x, ha, rfl, all⟩ := hds.exists_phrase
    obtain ⟨y, rfl, blanks⟩ := hblanks.exists_phrase (ne_return_of_isNameChar ha)
    obtain ⟨w, rfl, opening⟩ := hopen.exists_phrase (by decide)
    have hend' := hend.append_comment hfeed hstray
    have hclose' := close (behind ++ '-' :: '-' :: (c ++ ['\n']))
    have hds' := all _ (.of_blanks hclose' (endsName_cons (by decide) _))
    simpa using IsLayoutOf.inParentheses (opening _) (blanks _) hds' hclose' hend'

/-- A layout text stays one, of the same declarations, with such a comment. -/
theorem TakesComment.exists_readLayout_insert (hstray : '\r' ∉ c.dropLast) {d : Declaration}
    {ds : List Declaration} {cs v : List Char} (h : TakesComment cs v)
    (hread : readLayout cs = .ok (d :: ds)) :
    ∃ x, cs = x ++ v ∧ readLayout (x ++ '-' :: '-' :: (c ++ '\n' :: v)) = .ok (d :: ds) := by
  obtain rfl | ⟨x, rfl, hsame⟩ := h.exists_readLayout_eq
  · rw [readLayout_eq_ok_iff] at hread
    exact ⟨cs, by simp, readLayout_eq_ok_iff.mpr (hread.append_comment hfeed hstray)⟩
  · refine ⟨x, rfl, ?_⟩
    rw [hsame _ (skipBlank_of_blanks (blanks_comment hfeed hstray v)), hread]

/-- A stray carriage return leads nowhere. -/
theorem run_comment_eq_none (hstray : '\r' ∈ c.dropLast) (place : Place) (v : List Char) :
    (Progress.comment place).run (c ++ '\n' :: v) = none := by
  induction c with
  | nil => cases hstray
  | cons a c ih =>
    cases c with
    | nil => cases hstray
    | cons b c =>
      simp only [List.mem_cons, not_or] at hfeed
      have ha : ¬ a = '\n' := Ne.symm hfeed.1
      have hb : ¬ b = '\n' := Ne.symm hfeed.2.1
      by_cases hreturn : a = '\r'
      · subst hreturn
        rw [List.cons_append, List.cons_append, Progress.run_cons]
        simp [Progress.step, Progress.run_cons, hb]
      · rw [List.cons_append, Progress.run_cons]
        simp only [Progress.step, ha, hreturn, if_false, Option.bind_some]
        exact ih (by simp [hfeed]) (by simpa [hreturn, Ne.symm hreturn] using hstray)

end

/-- Where a comment with an empty body may stand, two hyphens lead into a comment. -/
theorem Progress.exists_comment_of_run {s s' : Progress} (h : s.run ['-', '-', '\n'] = some s') :
    ∃ place, s.run ['-', '-'] = some (comment place) := by
  cases s with
  | blank place | hyphen place | comment place => exact ⟨place, rfl⟩
  | carriageReturn place => cases h
  | name inParentheses | gap inParentheses => cases h
  | type inParentheses | note inParentheses => exact ⟨.declared inParentheses, rfl⟩
  | unit inParentheses => cases h

/-- Where a comment with an empty body may stand, no comment with a stray carriage return may. -/
theorem run_insert_eq_none {u v c : List Char} {t : Progress}
    (hempty : (Progress.blank .start).run (u ++ '-' :: '-' :: '\n' :: v) = some t)
    (hfeed : '\n' ∉ c) (hstray : '\r' ∈ c.dropLast) :
    (Progress.blank .start).run (u ++ '-' :: '-' :: (c ++ '\n' :: v)) = none := by
  have hsplit : ∀ (s : Progress) (w : List Char),
      s.run ('-' :: '-' :: w) = (s.run ['-', '-']).bind fun s' => s'.run w := fun s w =>
    s.run_append ['-', '-'] w
  rw [Progress.run_append] at hempty
  obtain ⟨s, hs, hempty⟩ := Option.bind_eq_some_iff.mp hempty
  have hcomment := (s.run_append ['-', '-', '\n'] v).symm.trans hempty
  obtain ⟨s', hs', -⟩ := Option.bind_eq_some_iff.mp hcomment
  obtain ⟨place, hplace⟩ := Progress.exists_comment_of_run hs'
  rw [Progress.run_append, hs, Option.bind_some, hsplit, hplace, Option.bind_some,
    run_comment_eq_none hfeed hstray]

/-! ## Whole texts -/

/-- A layout text with fields has declarations, which are read. -/
theorem exists_of_readFields_eq_ok {text : String} {fields : List Field}
    (h : readFields text = .ok fields) :
    ∃ d ds, readLayout text.toList = .ok (d :: ds) ∧ Declaration.toFields (d :: ds) = .ok fields := by
  rw [readFields] at h
  split at h
  · cases h
  · cases h
  · next ds hne hread =>
    cases ds with
    | nil => exact absurd rfl hne
    | cons d ds => exact ⟨d, ds, hread, h⟩

/-- **Whole texts**: a comment is put into a text that gives fields, at its beginning or its end, behind
its opening parenthesis or behind a comma between declarations. If carriage returns stand at most at the
end of its body, the text gives the same fields. If one stands anywhere else, the text is unreadable. -/
theorem readFields_insertComment {u v c : String} {fields : List Field}
    (hread : readFields (u ++ v) = .ok fields) (hplace : TakesComment (u ++ v).toList v.toList)
    (hfeed : '\n' ∉ c.toList) :
    ('\r' ∉ c.toList.dropLast → readFields (u ++ "--" ++ c ++ "\n" ++ v) = .ok fields) ∧
      ('\r' ∈ c.toList.dropLast →
        ∃ line found, readFields (u ++ "--" ++ c ++ "\n" ++ v) = .error (.unreadable line found)) := by
  obtain ⟨d, ds, hlayout, hfields⟩ := exists_of_readFields_eq_ok hread
  have hinsert : ∀ {b : List Char}, '\n' ∉ b → '\r' ∉ b.dropLast →
      readLayout (u.toList ++ '-' :: '-' :: (b ++ '\n' :: v.toList)) = .ok (d :: ds) := by
    intro b hfeed hstray
    obtain ⟨x, hx, hb⟩ := hplace.exists_readLayout_insert hfeed hstray hlayout
    rw [String.toList_append] at hx
    rwa [List.append_cancel_right hx]
  have htext : (u ++ "--" ++ c ++ "\n" ++ v).toList =
      u.toList ++ '-' :: '-' :: (c.toList ++ '\n' :: v.toList) := by simp
  refine ⟨fun hstray => ?_, fun hstray => ?_⟩
  · rw [readFields, htext, hinsert hfeed hstray]
    exact hfields
  · -- with an empty body the text is read, so that the hyphens lead into a comment
    obtain ⟨t, hempty, -⟩ := Progress.exists_readLayout_iff.mp ⟨_, hinsert List.not_mem_nil List.not_mem_nil⟩
    by_contra hno
    have hreadable : IsReadable (u ++ "--" ++ c ++ "\n" ++ v) := fun line found hfault =>
      hno ⟨line, found, hfault⟩
    rw [isReadable_iff, htext, Progress.exists_readLayout_iff] at hreadable
    obtain ⟨t', hrun, -⟩ := hreadable
    rw [run_insert_eq_none hempty hfeed hstray] at hrun
    cases hrun

/-- Behind the comma of two declarations: parentheses and commas in a comment do not matter, and neither
does the carriage return at its end; the same one at its beginning does. -/
theorem readFields_insertComment_comma :
    readFields "a u8,-- (b, c)\r\n b u16?" = .ok [.required "a" .u8, .optional "b" .u16] ∧
      ∃ line found, readFields "a u8,--\r (b, c)\n b u16?" = .error (.unreadable line found) := by
  have ha : Declares ⟨"a", "u8", false, none⟩ "a u8, b u16?".toList ", b u16?".toList :=
    declares_of_readDeclaration (by
      simp [readDeclaration, readType, readMark, readUnit, isGap, Text.isNameChar])
  have hb : Declares ⟨"b", "u16", true, none⟩ "b u16?".toList [] :=
    declares_of_readDeclaration (by
      simp [readDeclaration, readType, readMark, readUnit, isGap, Text.isNameChar])
  have hplace : TakesComment "a u8, b u16?".toList " b u16?".toList :=
    .comma (.bare .none) (.some ha .none) .none
  have hread : readFields ("a u8," ++ " b u16?") = .ok [.required "a" .u8, .optional "b" .u16] := by
    have hlayout : IsLayoutOf _ ("a u8," ++ " b u16?").toList :=
      .bare .none (.some ha (.next .none (.space rfl .none) hb .none)) .none
    rw [readFields, readLayout_eq_ok_iff.mpr hlayout]
    rfl
  exact ⟨(readFields_insertComment (c := " (b, c)\r") hread hplace (by decide)).1 (by decide),
    (readFields_insertComment (c := "\r (b, c)") hread hplace (by decide)).2 (by decide)⟩

/-- A comment on a line in front of everything, with a carriage return inside: the text gave a field, and
is unreadable with the comment. -/
theorem readFields_strayReturn :
    readFields ("" ++ "a u8") = .ok [.required "a" .u8] ∧
      TakesComment ("" ++ "a u8").toList "a u8".toList ∧ '\n' ∉ "x\ry".toList ∧
      readFields ("" ++ "--" ++ "x\ry" ++ "\n" ++ "a u8") =
        .error (.unreadable 1 (.text "--x\ry")) := by
  have ha : Declares ⟨"a", "u8", false, none⟩ "a u8".toList [] :=
    declares_of_readDeclaration (by
      simp [readDeclaration, readType, readMark, readUnit, isGap, Text.isNameChar])
  have hlayout : IsLayoutOf _ ("" ++ "a u8").toList := .bare .none (.some ha .none) .none
  have hskip : skipBlank ('-' :: '-' :: "x\ry\na u8".toList) = '-' :: '-' :: "x\ry\na u8".toList :=
    skipBlank_of_afterComment? rfl
  have hcomment : readLayout ('-' :: '-' :: "x\ry\na u8".toList) =
      .error ('-' :: '-' :: "x\ry\na u8".toList) := by
    have hopen : ∀ inside, '-' :: '-' :: "x\ry\na u8".toList ≠ '(' :: inside := by simp
    rw [readLayout_of_not_open (hskip.symm ▸ hopen), hskip, readDeclarations, if_pos (by decide)]
    show atEnd [] (skipBlank _) = _
    rw [hskip]
    rfl
  refine ⟨?_, .first, by decide, ?_⟩
  · rw [readFields, readLayout_eq_ok_iff.mpr hlayout]
    rfl
  · rw [readFields, show ("" ++ "--" ++ "x\ry" ++ "\n" ++ "a u8").toList =
      '-' :: '-' :: "x\ry\na u8".toList from rfl, hcomment]
    rfl

end CaptureIngest.Layout
