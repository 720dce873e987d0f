import CaptureIngest.Layout.Grammar

/-!
# The reader and the grammar

The reader of layout texts never goes back, and yet it loses no text: `readLayout_eq_ok_iff` says
that it accepts exactly the texts of the grammar, with the declarations that they make. Each part
of the reader is matched with its relation on the way. For blanks the two differ, because the
reader always takes all of them and the grammar need not; what holds is that blanks do not change
what is left once all of them are taken (`skipBlank_of_blanks`). The parts of a declaration that may
be missing are read wherever they stand, while the grammar may leave them out; the two agree because
what can stand behind a declaration begins no such part (`EndsDeclaration`).
-/

namespace CaptureIngest.Layout

/-! ## Blanks -/

/-- Spaces and line ends are skipped. -/
theorem skipBlank_space {c : Char} (h : isLayoutSpace c = true) (cs : List Char) :
    skipBlank (c :: cs) = skipBlank cs := by
  rw [skipBlank.eq_def]
  simp [h]

/-- A comment is skipped, and what stands behind it is skipped in turn. -/
theorem skipBlank_comment {body after : List Char} (h : afterComment? body = some after) :
    skipBlank ('-' :: '-' :: body) = skipBlank after := by
  rw [skipBlank.eq_def]
  simp only [show isLayoutSpace '-' = false by decide, Bool.false_eq_true, if_false, if_true]
  split <;> simp_all

/-- Nothing is skipped in front of a character that neither is blank nor may begin a comment. -/
theorem skipBlank_of_ne {c : Char} (h : isLayoutSpace c = false) (hc : c ≠ '-') (cs : List Char) :
    skipBlank (c :: cs) = c :: cs := by
  rw [skipBlank.eq_def]
  simp [h, hc]

/-- A comment ends in front of the first line end. -/
theorem afterComment?_append {body cs : List Char} (hb : ∀ c ∈ body, c ≠ '\n' ∧ c ≠ '\r')
    (hc : EndsComment cs) : afterComment? (body ++ cs) = some cs := by
  induction body with
  | nil => cases hc <;> simp [afterComment?]
  | cons c body ih =>
    have hc' := hb c (by simp)
    rw [List.cons_append, afterComment?]
    · exact ih fun d hd => hb d (by simp [hd])
    · exact hc'.1
    · intro _ h
      exact absurd h hc'.2
    · exact hc'.2

/-- What is left behind a comment is what stands behind a body without line ends. -/
theorem exists_of_afterComment?_eq_some {cs rest : List Char} (h : afterComment? cs = some rest) :
    ∃ body, cs = body ++ rest ∧ (∀ c ∈ body, c ≠ '\n' ∧ c ≠ '\r') ∧ EndsComment rest := by
  fun_induction afterComment? cs with
  | case1 => cases h; exact ⟨[], rfl, by simp, .over⟩
  | case2 => cases h; exact ⟨[], rfl, by simp, .lineFeed⟩
  | case3 => cases h; exact ⟨[], rfl, by simp, .lineBreak⟩
  | case4 => cases h
  | case5 c cs h₁ h₂ h₃ ih =>
    obtain ⟨body, rfl, hb, he⟩ := ih h
    refine ⟨c :: body, rfl, ?_, he⟩
    intro d hd
    rcases List.mem_cons.mp hd with rfl | hd
    · exact ⟨h₁, h₃⟩
    · exact hb d hd

/-- What the reader skips is blank. -/
theorem blanks_skipBlank (cs : List Char) : Blanks cs (skipBlank cs) := by
  fun_induction skipBlank cs with
  | case1 => exact .none
  | case2 c rest hc ih => exact .space hc ih
  | case3 body after h _ ih =>
    obtain ⟨b, rfl, hb, he⟩ := exists_of_afterComment?_eq_some h
    exact .comment hb he ih
  | case4 | case5 | case6 => exact .none

/-- Blanks do not change what is left once all of them are taken. -/
theorem skipBlank_of_blanks {cs rest : List Char} (h : Blanks cs rest) :
    skipBlank cs = skipBlank rest := by
  induction h with
  | none => rfl
  | space hc _ ih => rw [skipBlank_space hc, ih]
  | comment hb he _ ih => rw [skipBlank_comment (afterComment?_append hb he), ih]

/-! ## Declarations -/

/-- The reader takes the whole of a name, and nothing behind it. -/
theorem takeWhile_of_name {s : String} {cs rest : List Char} (h : Name s cs rest) :
    cs.takeWhile Text.isNameChar = s.toList ∧ cs.dropWhile Text.isNameChar = rest := by
  obtain ⟨-, hs, hr⟩ := h
  rw [List.takeWhile_append_of_pos hs, List.dropWhile_append_of_pos hs]
  cases rest with
  | nil => simp
  | cons c rest => simp [hr c (by simp)]

/-- The characters of a name with which a text begins make a name, unless there are none. -/
theorem name_takeWhile {cs : List Char} (h : (cs.takeWhile Text.isNameChar).isEmpty = false) :
    Name (.ofList (cs.takeWhile Text.isNameChar)) cs (cs.dropWhile Text.isNameChar) := by
  have stop := List.head?_dropWhile_not Text.isNameChar cs
  have name : Name (.ofList (cs.takeWhile Text.isNameChar))
      ((String.ofList (cs.takeWhile Text.isNameChar)).toList ++ cs.dropWhile Text.isNameChar)
      (cs.dropWhile Text.isNameChar) :=
    .run (by simpa using h) (by simpa using List.all_eq_true.mp List.all_takeWhile) fun c hc => by
      rw [Option.mem_def.mp hc] at stop
      exact stop
  rwa [String.toList_ofList, List.takeWhile_append_dropWhile] at name

/-- The spaces that the reader drops are a gap. -/
theorem gap_dropWhile (cs : List Char) : Gap cs (cs.dropWhile isGap) := by
  induction cs with
  | nil => exact .none
  | cons c cs ih =>
    by_cases hc : isGap c = true
    · rw [List.dropWhile_cons_of_pos hc]
      exact .space hc ih
    · rw [List.dropWhile_cons_of_neg hc]
      exact .none

/-- A gap does not change what is left once all spaces are dropped. -/
theorem dropWhile_of_gap {cs rest : List Char} (h : Gap cs rest) :
    cs.dropWhile isGap = rest.dropWhile isGap := by
  induction h with
  | none => rfl
  | space hc _ ih => rw [List.dropWhile_cons_of_pos hc, ih]

/-- In front of another character no space is dropped. -/
theorem dropWhile_gap_of_not {c : Char} (h : isGap c = false) (cs : List Char) :
    (c :: cs).dropWhile isGap = c :: cs :=
  List.dropWhile_cons_of_neg (by simp [h])

/-- A name has a first character. -/
theorem isNameChar_head {s : String} {cs rest : List Char} (h : Name s cs rest) :
    ∃ c tail, cs = c :: tail ∧ Text.isNameChar c = true := by
  obtain ⟨hne, hs, -⟩ := h
  cases hl : s.toList with
  | nil => exact absurd hl hne
  | cons c tail => exact ⟨c, tail ++ rest, rfl, hs c (by simp [hl])⟩

/-- No character of a name is a space. -/
theorem not_gap_of_isNameChar {c : Char} (h : Text.isNameChar c = true) : isGap c = false := by
  have space : Text.isNameChar ' ' = false := by decide
  have tab : Text.isNameChar '\t' = false := by decide
  grind [isGap]

/-- No character of a name is blank, and none begins a comment. -/
theorem not_space_of_isNameChar {c : Char} (h : Text.isNameChar c = true) :
    isLayoutSpace c = false ∧ c ≠ '-' := by
  have space : Text.isNameChar ' ' = false := by decide
  have tab : Text.isNameChar '\t' = false := by decide
  have ret : Text.isNameChar '\r' = false := by decide
  have feed : Text.isNameChar '\n' = false := by decide
  have hyphen : Text.isNameChar '-' = false := by decide
  grind [isLayoutSpace]

/-- What may follow a declaration: behind blanks a comma, a closing parenthesis, or nothing. -/
def EndsDeclaration (cs : List Char) : Prop :=
  ∀ c ∈ (skipBlank cs).head?, c = ',' ∨ c = ')'

/-- A gap is blank. -/
theorem skipBlank_dropWhile_gap (cs : List Char) :
    skipBlank (cs.dropWhile isGap) = skipBlank cs := by
  induction cs with
  | nil => rfl
  | cons c cs ih =>
    by_cases hc : isGap c = true
    · have hs : isLayoutSpace c = true := by
        simp only [isGap, Bool.or_eq_true] at hc
        simp only [isLayoutSpace, Bool.or_eq_true, hc, true_or]
      rw [List.dropWhile_cons_of_pos hc, ih, skipBlank_space hs]
    · rw [List.dropWhile_cons_of_neg hc]

/-- No brace opens behind what ends a declaration. -/
theorem dropWhile_gap_ne_brace {cs : List Char} (h : EndsDeclaration cs) (body : List Char) :
    cs.dropWhile isGap ≠ '\x7b' :: body := by
  intro hb
  have hskip := skipBlank_dropWhile_gap cs
  rw [hb, skipBlank_of_ne (by decide) (by decide)] at hskip
  exact absurd (h '\x7b' (by rw [← hskip]; rfl)) (by decide)

/-- A question mark that is not read as one ends no declaration. -/
theorem head_ne_mark_of_unitNote {u : Option String} {cs rest : List Char} (h : UnitNote u cs rest)
    (hrest : EndsDeclaration rest) : cs.head? ≠ some '?' := by
  intro hmark
  obtain ⟨tail, rfl⟩ := List.head?_eq_some_iff.mp hmark
  cases h with
  | braces hgap _ =>
    have := dropWhile_of_gap hgap
    rw [dropWhile_gap_of_not (by decide), dropWhile_gap_of_not (by decide)] at this
    cases this
  | none =>
    exact absurd (hrest '?' (by rw [skipBlank_of_ne (by decide) (by decide)]; rfl)) (by decide)

/-- What is read as a unit, or as none, is one in the grammar. -/
theorem unitNote_of_readUnit {cs rest : List Char} {u : Option String}
    (h : readUnit cs = .ok (u, rest)) : UnitNote u cs rest := by
  unfold readUnit at h
  split at h
  · next body hb =>
    split at h
    · next after ha =>
      cases h
      refine .braces ?_ ?_
      · have parts := List.takeWhile_append_dropWhile
          (p := fun c => c != '\x7d' && c != '\n') (l := body)
        rw [ha] at parts
        rw [String.toList_ofList, parts, ← hb]
        exact gap_dropWhile cs
      · rw [String.toList_ofList]
        have all := List.all_eq_true.mp
          (List.all_takeWhile (p := fun c => c != '\x7d' && c != '\n') (l := body))
        simpa using all
    · cases h
  · cases h
    exact .none

/-- In front of what may follow a declaration, its unit is read. -/
theorem readUnit_of_unitNote {cs rest : List Char} {u : Option String} (h : UnitNote u cs rest)
    (hrest : EndsDeclaration rest) : readUnit cs = .ok (u, rest) := by
  cases h with
  | @braces s cs rest hg hs =>
    have open' := dropWhile_of_gap hg
    rw [dropWhile_gap_of_not (by decide)] at open'
    have hs' : ∀ c ∈ s.toList, (c != '\x7d' && c != '\n') = true := by simpa using hs
    unfold readUnit
    rw [open']
    simp only [List.dropWhile_append_of_pos hs', List.takeWhile_append_of_pos hs']
    simp
  | none =>
    unfold readUnit
    split
    · next body hb => exact absurd hb (dropWhile_gap_ne_brace hrest body)
    · rfl

/-- What is read as a question mark, or as none, is one in the grammar. -/
theorem mark_readMark (cs : List Char) : Mark (readMark cs).1 cs (readMark cs).2 := by
  unfold readMark
  split
  · exact .mark
  · exact .none

/-- A question mark is read wherever no other one follows where there is none. -/
theorem readMark_of_mark {cs rest : List Char} {b : Bool} (h : Mark b cs rest)
    (hrest : rest.head? ≠ some '?') : readMark cs = (b, rest) := by
  cases h with
  | mark => rfl
  | none =>
    unfold readMark
    split
    · exact absurd rfl hrest
    · rfl

/-- What is read behind the name of a declaration are its type, its question mark and its unit. -/
theorem of_readType {name : String} {cs rest : List Char} {d : Declaration}
    (h : readType name cs = .ok (d, rest)) : d.name = name ∧ ∃ afterType afterMark,
      Name d.typeName cs afterType ∧ Mark d.nullable afterType afterMark ∧
        UnitNote d.unitText? afterMark rest := by
  simp only [readType] at h
  split at h
  · cases h
  · next hname =>
    have hname := name_takeWhile (by simpa using hname)
    split at h
    · cases h
    · next u after hu =>
      cases h
      exact ⟨rfl, _, _, hname, mark_readMark _, unitNote_of_readUnit hu⟩

/-- In front of what may follow a declaration, all that stands behind its name is read. -/
theorem readType_of_parts {cs afterType afterMark rest : List Char} {d : Declaration}
    (hname : Name d.typeName cs afterType) (hmark : Mark d.nullable afterType afterMark)
    (hunit : UnitNote d.unitText? afterMark rest) (hrest : EndsDeclaration rest) :
    readType d.name cs = .ok (d, rest) := by
  obtain ⟨htake, hdrop⟩ := takeWhile_of_name hname
  obtain ⟨hne, -, -⟩ := hname
  have hmark := readMark_of_mark hmark (head_ne_mark_of_unitNote hunit hrest)
  have hunit := readUnit_of_unitNote hunit hrest
  simp only [readType, htake, hdrop]
  rw [if_neg]
  · simp only [hmark, hunit, String.ofList_toList]
  · simpa using hne

/-- What is read as a declaration is one in the grammar. -/
theorem declares_of_readDeclaration {cs rest : List Char} {d : Declaration}
    (h : readDeclaration cs = .ok (d, rest)) : Declares d cs rest := by
  simp only [readDeclaration] at h
  split at h
  · cases h
  · next hname =>
    have hname := name_takeWhile (by simpa using hname)
    split at h
    · cases h
    · next hgap =>
      obtain ⟨hd, afterType, afterMark, htype, hmark, hunit⟩ := of_readType h
      cases hcs : cs.dropWhile Text.isNameChar with
      | nil => simp [hcs] at hgap
      | cons c tail =>
        rw [hcs] at hname hgap htype
        by_cases hc : isGap c = true
        · rw [List.dropWhile_cons_of_pos hc] at htype
          exact .parts (hd ▸ hname) hc (gap_dropWhile tail) htype hmark hunit
        · simp [hc] at hgap

/-- In front of what may follow a declaration, the optional parts are read where they stand. -/
theorem readDeclaration_of_declares {cs rest : List Char} {d : Declaration}
    (h : Declares d cs rest) (hrest : EndsDeclaration rest) :
    readDeclaration cs = .ok (d, rest) := by
  obtain ⟨hname, hc, hgap, htype, hmark, hunit⟩ := h
  obtain ⟨htake, hdrop⟩ := takeWhile_of_name hname
  obtain ⟨hne, -, -⟩ := hname
  obtain ⟨t, tail, rfl, ht⟩ := isNameChar_head htype
  have hgap := dropWhile_of_gap hgap
  rw [dropWhile_gap_of_not (not_gap_of_isNameChar ht)] at hgap
  simp only [readDeclaration, htake, hdrop, String.ofList_toList,
    List.takeWhile_cons_of_pos hc, List.dropWhile_cons_of_pos hc, hgap]
  rw [if_neg (by simpa using hne), if_neg (by simp)]
  exact readType_of_parts htype hmark hunit hrest

/-! ## Lists of declarations -/

/-- No blank stands in front of a declaration. -/
theorem skipBlank_of_declares {d : Declaration} {cs rest : List Char} (h : Declares d cs rest) :
    skipBlank cs = cs := by
  obtain ⟨hname, -, -, -, -, -⟩ := h
  obtain ⟨c, tail, rfl, hc⟩ := isNameChar_head hname
  exact skipBlank_of_ne (not_space_of_isNameChar hc).1 (not_space_of_isNameChar hc).2 tail

/-- What may follow a list of declarations: behind blanks a closing parenthesis, or nothing. -/
def EndsList (cs : List Char) : Prop :=
  ∀ c ∈ (skipBlank cs).head?, c = ')'

/-- What may follow a list may follow the last declaration in it. -/
theorem EndsList.endsDeclaration {cs : List Char} (h : EndsList cs) : EndsDeclaration cs :=
  fun c hc => .inr (h c hc)

/-- A list goes on with a comma or ends. -/
theorem endsDeclaration_of_more {ds : List Declaration} {cs rest : List Char} (h : More ds cs rest)
    (hrest : EndsList rest) : EndsDeclaration cs := by
  cases h with
  | none => exact hrest.endsDeclaration
  | next hcomma _ _ _ =>
    intro c hc
    rw [skipBlank_of_blanks hcomma, skipBlank_of_ne (by decide) (by decide)] at hc
    rw [List.head?_cons, Option.mem_def, Option.some.injEq] at hc
    exact .inl hc.symm

/-- What is read as the rest of a list is one in the grammar. -/
theorem more_of_readMore {ds : List Declaration} {cs rest : List Char}
    (h : readMore cs = .ok (ds, rest)) : More ds cs rest := by
  fun_induction readMore cs generalizing ds with
  | case1 => cases h
  | case2 => simp_all
  | case3 cs afterComma hc d after hd ds' after' hm ih =>
    cases h
    exact .next (hc ▸ blanks_skipBlank cs) (blanks_skipBlank afterComma)
      (declares_of_readDeclaration hd) (ih hm)
  | case4 => cases h; exact .none

/-- In front of what may follow it, the rest of a list is read to its end. -/
theorem readMore_of_more {ds : List Declaration} {cs rest : List Char} (h : More ds cs rest)
    (hrest : EndsList rest) : readMore cs = .ok (ds, rest) := by
  induction h with
  | none =>
    rw [readMore.eq_def]
    split
    · next afterComma hc => exact absurd (hrest ',' (by rw [hc]; rfl)) (by decide)
    · rfl
  | next hcomma hblanks hd hmore ih =>
    rw [readMore.eq_def]
    have hcs := skipBlank_of_blanks hcomma
    rw [skipBlank_of_ne (by decide) (by decide)] at hcs
    have hstart := skipBlank_of_blanks hblanks
    rw [skipBlank_of_declares hd] at hstart
    have hd := readDeclaration_of_declares hd (endsDeclaration_of_more hmore hrest)
    split
    · next afterComma hc =>
      rw [hcs] at hc
      cases hc
      split
      · next stop hstop => simp [hstart, hd] at hstop
      · next d' rest' hd' =>
        rw [hstart, hd] at hd'
        cases hd'
        simp [ih hrest]
    · next hno => exact absurd hcs (hno _)

/-- What is read as a list of declarations is one in the grammar. -/
theorem declaresAll_of_readDeclarations {ds : List Declaration} {cs rest : List Char}
    (h : readDeclarations cs = .ok (ds, rest)) : DeclaresAll ds cs rest := by
  unfold readDeclarations at h
  split at h
  · cases h
    exact .none
  · split at h
    · cases h
    · next d after hd =>
      split at h
      · cases h
      · next ds' after' hm =>
        cases h
        exact .some (declares_of_readDeclaration hd) (more_of_readMore hm)

/-- In front of what may follow it, a list of declarations is read to its end. -/
theorem readDeclarations_of_declaresAll {ds : List Declaration} {cs rest : List Char}
    (h : DeclaresAll ds cs rest) (hrest : EndsList rest) :
    ∃ rest', readDeclarations (skipBlank cs) = .ok (ds, rest') ∧
      skipBlank rest' = skipBlank rest := by
  cases h with
  | none =>
    refine ⟨skipBlank cs, ?_, (skipBlank_of_blanks (blanks_skipBlank cs)).symm⟩
    rw [readDeclarations, if_pos]
    cases hstop : skipBlank cs with
    | nil => rfl
    | cons c stop =>
      obtain rfl := hrest c (by rw [hstop]; rfl)
      rfl
  | some hd hm =>
    refine ⟨rest, ?_, rfl⟩
    have hread := readDeclaration_of_declares hd (endsDeclaration_of_more hm hrest)
    have hskip := skipBlank_of_declares hd
    have hmore := readMore_of_more hm hrest
    obtain ⟨hname, -, -, -, -, -⟩ := hd
    have htake := (takeWhile_of_name hname).1
    obtain ⟨hne, -, -⟩ := hname
    rw [hskip, readDeclarations, if_neg (by rw [htake]; simpa using hne), hread]
    simp only [hmore]

/-! ## The whole text -/

/-- A text that the reader accepts is a layout text, with these declarations. -/
theorem isLayoutOf_of_readLayout {ds : List Declaration} {cs : List Char}
    (h : readLayout cs = .ok ds) : IsLayoutOf ds cs := by
  unfold readLayout at h
  split at h
  · next inside hopen =>
    split at h
    · cases h
    · next ds' rest hds =>
      split at h
      · next after hclose =>
        split at h
        · next hend =>
          cases h
          exact .inParentheses (hopen ▸ blanks_skipBlank cs) (blanks_skipBlank inside)
            (declaresAll_of_readDeclarations hds) (hclose ▸ blanks_skipBlank rest)
            (hend ▸ blanks_skipBlank after)
        · cases h
      · cases h
  · split at h
    · cases h
    · next ds' rest hds =>
      split at h
      · next hend =>
        cases h
        exact .bare (blanks_skipBlank cs) (declaresAll_of_readDeclarations hds)
          (hend ▸ blanks_skipBlank rest)
      · cases h

/-- A text that is read to its end as a list of declarations opens no parenthesis. -/
theorem head_ne_paren_of_readDeclarations {ds : List Declaration} {cs rest : List Char}
    (h : readDeclarations cs = .ok (ds, rest)) (hrest : skipBlank rest = [])
    (hskip : skipBlank cs = cs) (inside : List Char) : cs ≠ '(' :: inside := by
  rintro rfl
  have hname : Text.isNameChar '(' = false := by decide
  unfold readDeclarations at h
  rw [if_pos (by simp [hname])] at h
  cases h
  rw [hskip] at hrest
  cases hrest

/-- A layout text is accepted, with the declarations that it makes. -/
theorem readLayout_of_isLayoutOf {ds : List Declaration} {cs : List Char}
    (h : IsLayoutOf ds cs) : readLayout cs = .ok ds := by
  cases h with
  | inParentheses hopen hblanks hds hclose hend =>
    have hopen := skipBlank_of_blanks hopen
    rw [skipBlank_of_ne (by decide) (by decide)] at hopen
    have hblanks := skipBlank_of_blanks hblanks
    have hclose := skipBlank_of_blanks hclose
    rw [skipBlank_of_ne (by decide) (by decide)] at hclose
    have hend := skipBlank_of_blanks hend
    obtain ⟨rest', hread, hrest'⟩ := readDeclarations_of_declaresAll hds
      (by rw [EndsList, hclose]; rintro c ⟨⟩; rfl)
    unfold readLayout
    simp only [hopen, hblanks, hread, hrest', hclose, hend]
    rw [skipBlank]
  | bare hblanks hds hend =>
    have hblanks := skipBlank_of_blanks hblanks
    have hend := skipBlank_of_blanks hend
    rw [skipBlank] at hend
    obtain ⟨rest', hread, hrest'⟩ := readDeclarations_of_declaresAll hds
      (by rw [EndsList, hend]; rintro c ⟨⟩)
    rw [hend] at hrest'
    have hparen := head_ne_paren_of_readDeclarations hread hrest'
      (skipBlank_of_blanks (blanks_skipBlank _)).symm
    unfold readLayout
    rw [hblanks]
    split
    · next inside hopen => exact absurd hopen (hparen inside)
    · simp only [hread, hrest']

/-- The reader accepts exactly the layout texts, with the declarations that they make. -/
theorem readLayout_eq_ok_iff {ds : List Declaration} {cs : List Char} :
    readLayout cs = .ok ds ↔ IsLayoutOf ds cs :=
  ⟨isLayoutOf_of_readLayout, readLayout_of_isLayoutOf⟩

end CaptureIngest.Layout
