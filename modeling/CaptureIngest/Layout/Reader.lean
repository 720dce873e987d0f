import CaptureIngest.Layout.Declaration
import CaptureIngest.Text.Quoted

/-!
# Reading a layout text

A layout text is a list of declarations with commas between them, in parentheses or not:

    (poller string,          -- a comment runs to the end of its line
     capture_begin u64,
     mtu_client u32? {bytes})

Blanks — white space and comments — may stand around declarations, commas and parentheses. A
declaration itself stands on one line. The reader never looks for another way to read a text: once
it has seen a name it must read a declaration, and once it has seen a comma another one. Where it
has to stop it hands over what it has not read, and `stopDefect` makes the report of that: a line
number and the text found there.

Every function here takes the characters that are still to be read and gives back those that it
left.
-/

namespace CaptureIngest.Layout

/-! ## Blanks -/

/-- The white space between declarations. -/
def isLayoutSpace (c : Char) : Bool :=
  c == ' ' || c == '\t' || c == '\r' || c == '\n'

/-- The white space inside a declaration. -/
def isGap (c : Char) : Bool :=
  c == ' ' || c == '\t'

/-- What follows the body of a comment: a line end, which is left unread, or nothing. A carriage
return that is not part of a line end is no part of a comment either. -/
def afterComment? : List Char → Option (List Char)
  | [] => some []
  | '\n' :: rest => some ('\n' :: rest)
  | '\r' :: '\n' :: rest => some ('\r' :: '\n' :: rest)
  | '\r' :: _ => none
  | _ :: rest => afterComment? rest

/-- No more text is left behind a comment than before it. -/
theorem length_afterComment?_le {cs rest : List Char} (h : afterComment? cs = some rest) :
    rest.length ≤ cs.length := by
  fun_induction afterComment? cs <;> grind

/-- Skips white space and comments. -/
def skipBlank : List Char → List Char
  | [] => []
  | c :: rest =>
    if isLayoutSpace c then skipBlank rest
    else if c = '-' then
      match rest with
      | '-' :: body =>
        match _h : afterComment? body with
        | some after => skipBlank after
        | none => '-' :: '-' :: body
      | rest => '-' :: rest
    else c :: rest
termination_by cs => cs.length
decreasing_by
  · simp
  · have := length_afterComment?_le _h
    simp only [List.length_cons]
    omega

/-! ## Declarations -/

/-- Reads the unit behind a type, if a brace opens there. Without one nothing is read, not even
the gap; with one the closing brace must stand on the same line. -/
def readUnit (cs : List Char) : Except (List Char) (Option String × List Char) :=
  match cs.dropWhile isGap with
  | '\x7b' :: body =>
    match body.dropWhile fun c => c != '\x7d' && c != '\n' with
    | '\x7d' :: rest =>
      .ok (some (.ofList (body.takeWhile fun c => c != '\x7d' && c != '\n')), rest)
    | stop => .error stop
  | _ => .ok (none, cs)

/-- Reads a question mark, if one is next. -/
def readMark : List Char → Bool × List Char
  | '?' :: rest => (true, rest)
  | rest => (false, rest)

/-- Reads what follows the gap behind a name: a type, and optionally a question mark and a unit. -/
def readType (name : String) (cs : List Char) : Except (List Char) (Declaration × List Char) :=
  if (cs.takeWhile Text.isNameChar).isEmpty then .error cs
  else
    let type := String.ofList (cs.takeWhile Text.isNameChar)
    let (nullable, afterMark) := readMark (cs.dropWhile Text.isNameChar)
    match readUnit afterMark with
    | .error stop => .error stop
    | .ok (unitText?, rest) => .ok (⟨name, type, nullable, unitText?⟩, rest)

/-- Reads a declaration: a name, a gap, and a type with what belongs to it. Fails with the unread
text where one of the parts that must be there is not. -/
def readDeclaration (cs : List Char) : Except (List Char) (Declaration × List Char) :=
  if (cs.takeWhile Text.isNameChar).isEmpty then .error cs
  else
    let afterName := cs.dropWhile Text.isNameChar
    if (afterName.takeWhile isGap).isEmpty then .error afterName
    else readType (.ofList (cs.takeWhile Text.isNameChar)) (afterName.dropWhile isGap)

/-! Each reader leaves less than it was given. -/

/-- No more text is left behind characters of one kind. -/
theorem length_dropWhile_le (p : Char → Bool) (cs : List Char) :
    (cs.dropWhile p).length ≤ cs.length :=
  (List.dropWhile_suffix p).length_le

/-- Behind a unit no more text is left. -/
theorem length_readUnit_le {cs rest : List Char} {u : Option String}
    (h : readUnit cs = .ok (u, rest)) : rest.length ≤ cs.length := by
  have outer := length_dropWhile_le isGap cs
  unfold readUnit at h
  split at h
  · next body hbody =>
    have inner := length_dropWhile_le (fun c => c != '\x7d' && c != '\n') body
    rw [hbody, List.length_cons] at outer
    split at h
    · next after hafter =>
      rw [hafter, List.length_cons] at inner
      cases h
      omega
    · cases h
  · cases h
    omega

/-- Behind a question mark no more text is left. -/
theorem length_readMark_le (cs : List Char) : (readMark cs).2.length ≤ cs.length := by
  unfold readMark
  split <;> simp

/-- Behind a type no more text is left. -/
theorem length_readType_le {name : String} {cs rest : List Char} {d : Declaration}
    (h : readType name cs = .ok (d, rest)) : rest.length ≤ cs.length := by
  have word := length_dropWhile_le Text.isNameChar cs
  simp only [readType] at h
  split at h
  · cases h
  · split at h
    · cases h
    · next u after hu =>
      have unit := length_readUnit_le hu
      have mark := length_readMark_le (cs.dropWhile Text.isNameChar)
      cases h
      omega

/-- Behind a declaration less text is left, so the reader comes to an end. -/
theorem length_readDeclaration_lt {cs rest : List Char} {d : Declaration}
    (h : readDeclaration cs = .ok (d, rest)) : rest.length < cs.length := by
  simp only [readDeclaration] at h
  split at h
  · cases h
  · next hname =>
    split at h
    · cases h
    · have type := length_readType_le h
      have gap := length_dropWhile_le isGap (cs.dropWhile Text.isNameChar)
      have parts := congrArg List.length
        (List.takeWhile_append_dropWhile (p := Text.isNameChar) (l := cs))
      have : 0 < (cs.takeWhile Text.isNameChar).length :=
        List.length_pos_iff.mpr (by simpa using hname)
      rw [List.length_append] at parts
      omega

/-- Behind blanks no more text is left. -/
theorem length_skipBlank_le (cs : List Char) : (skipBlank cs).length ≤ cs.length := by
  fun_induction skipBlank cs with
  | case1 => simp
  | case2 c rest hc ih => simp only [List.length_cons]; omega
  | case3 body after h ih =>
    have := length_afterComment?_le h
    simp only [List.length_cons]
    omega
  | case4 | case5 | case6 => simp

/-- Reads the declarations that follow a first one, each behind a comma. -/
def readMore (cs : List Char) : Except (List Char) (List Declaration × List Char) :=
  match _hc : skipBlank cs with
  | ',' :: afterComma =>
    match _hd : readDeclaration (skipBlank afterComma) with
    | .error stop => .error stop
    | .ok (d, rest) =>
      match readMore rest with
      | .error stop => .error stop
      | .ok (ds, rest) => .ok (d :: ds, rest)
  | _ => .ok ([], cs)
termination_by cs.length
decreasing_by
  have h₁ := length_skipBlank_le cs
  have h₂ := length_skipBlank_le afterComma
  have h₃ := length_readDeclaration_lt _hd
  rw [_hc, List.length_cons] at h₁
  omega

/-- Reads a list of declarations, which is empty if no name stands at its beginning. -/
def readDeclarations (cs : List Char) : Except (List Char) (List Declaration × List Char) :=
  if (cs.takeWhile Text.isNameChar).isEmpty then .ok ([], cs)
  else
    match readDeclaration cs with
    | .error stop => .error stop
    | .ok (d, rest) =>
      match readMore rest with
      | .error stop => .error stop
      | .ok (ds, rest) => .ok (d :: ds, rest)

/-! ## The whole text -/

/-- Reads a whole layout text, with or without parentheses. -/
def readLayout (cs : List Char) : Except (List Char) (List Declaration) :=
  match skipBlank cs with
  | '(' :: inside =>
    match readDeclarations (skipBlank inside) with
    | .error stop => .error stop
    | .ok (ds, rest) =>
      match skipBlank rest with
      | ')' :: after =>
        match skipBlank after with
        | [] => .ok ds
        | stop => .error stop
      | stop => .error stop
  | start =>
    match readDeclarations start with
    | .error stop => .error stop
    | .ok (ds, rest) =>
      match skipBlank rest with
      | [] => .ok ds
      | stop => .error stop

/-! ## Reports -/

/-- What stands at the beginning of an unread text. -/
def unexpected (stop : List Char) : Unexpected :=
  if stop.isEmpty then .endOfLayout
  else
    let line := Text.trim (.ofList (stop.takeWhile (· != '\n')))
    if line.isEmpty then .endOfLine else .text line

/-- The report that the reader of `cs` stopped before `stop`. -/
def stopDefect (cs stop : List Char) : Defect :=
  .unreadable (((cs.take (cs.length - stop.length)).count '\n') + 1) (unexpected stop)

/-- The fields that a layout text declares. -/
def readFields (text : String) : Except Defect (List Field) :=
  match readLayout text.toList with
  | .error stop => .error (stopDefect text.toList stop)
  | .ok [] => .error .empty
  | .ok ds => Declaration.toFields ds

end CaptureIngest.Layout
