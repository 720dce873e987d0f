import CaptureIngest.Layout.Reader

/-!
# The grammar of layout texts

What a layout text is, apart from how it is read. Each relation here says that a phrase stands
between the beginning of one text and the beginning of another, which is what follows it:

    layout       = blanks ("(" blanks declarations blanks ")" | declarations) blanks
    declarations = [declaration (blanks "," blanks declaration)*]
    declaration  = name gap name ["?"] [gap? "{" unit "}"]

To say what follows is part of a phrase, because names are as long as they can be and a comment
goes on to the end of its line.
-/

namespace CaptureIngest.Layout

/-! ## Blanks -/

/-- A comment may end in front of a text that is empty or begins with a line end. -/
inductive EndsComment : List Char → Prop
  /-- The text is over. -/
  | over : EndsComment []
  /-- A line feed. -/
  | lineFeed {rest : List Char} : EndsComment ('\n' :: rest)
  /-- A carriage return and a line feed. -/
  | lineBreak {rest : List Char} : EndsComment ('\r' :: '\n' :: rest)

/-- White space and comments stand between two texts. -/
inductive Blanks : List Char → List Char → Prop
  /-- Nothing stands between them. -/
  | none {cs : List Char} : Blanks cs cs
  /-- White space, and then blanks. -/
  | space {c : Char} {cs rest : List Char} :
    isLayoutSpace c = true → Blanks cs rest → Blanks (c :: cs) rest
  /-- A comment, and then blanks. -/
  | comment {body cs rest : List Char} : (∀ c ∈ body, c ≠ '\n' ∧ c ≠ '\r') → EndsComment cs →
    Blanks cs rest → Blanks ('-' :: '-' :: (body ++ cs)) rest

/-! ## Declarations -/

/-- The next character of a text, if there is one, does not continue a name. -/
def EndsName (cs : List Char) : Prop :=
  ∀ c ∈ cs.head?, Text.isNameChar c = false

/-- A name stands between two texts, as long as it can be. -/
inductive Name (s : String) : List Char → List Char → Prop
  /-- The characters of the name, which are some. -/
  | run {rest : List Char} : s.toList ≠ [] → (∀ c ∈ s.toList, Text.isNameChar c = true) →
    EndsName rest → Name s (s.toList ++ rest) rest

/-- Spaces and tabs stand between two texts, or nothing. -/
inductive Gap : List Char → List Char → Prop
  /-- Nothing stands between them. -/
  | none {cs : List Char} : Gap cs cs
  /-- A space or a tab, and then a gap. -/
  | space {c : Char} {cs rest : List Char} : isGap c = true → Gap cs rest → Gap (c :: cs) rest

/-- A question mark may stand between two texts. -/
inductive Mark : Bool → List Char → List Char → Prop
  /-- A question mark. -/
  | mark {rest : List Char} : Mark true ('?' :: rest) rest
  /-- Nothing. -/
  | none {cs : List Char} : Mark false cs cs

/-- A unit in braces may stand between two texts. -/
inductive UnitNote : Option String → List Char → List Char → Prop
  /-- A text in braces on one line, with or without a gap before it. -/
  | braces {s : String} {cs rest : List Char} : Gap cs ('\x7b' :: (s.toList ++ '\x7d' :: rest)) →
    (∀ c ∈ s.toList, c ≠ '\x7d' ∧ c ≠ '\n') → UnitNote (some s) cs rest
  /-- Nothing. -/
  | none {cs : List Char} : UnitNote Option.none cs cs

/-- A declaration stands between two texts. -/
inductive Declares : Declaration → List Char → List Char → Prop
  /-- A name, a gap that is not empty, a type, and perhaps a question mark and a unit. -/
  | parts {d : Declaration} {c : Char} {cs afterName afterGap afterType afterMark rest : List Char} :
    Name d.name cs (c :: afterName) → isGap c = true → Gap afterName afterGap →
    Name d.typeName afterGap afterType → Mark d.nullable afterType afterMark →
    UnitNote d.unitText? afterMark rest → Declares d cs rest

/-! ## Lists of declarations -/

/-- Declarations stand between two texts, each behind a comma. -/
inductive More : List Declaration → List Char → List Char → Prop
  /-- None. -/
  | none {cs : List Char} : More [] cs cs
  /-- A comma between blanks, a declaration, and then more of them. -/
  | next {d : Declaration} {ds : List Declaration} {cs afterBlanks start afterFirst rest : List Char} :
    Blanks cs (',' :: afterBlanks) → Blanks afterBlanks start → Declares d start afterFirst →
    More ds afterFirst rest → More (d :: ds) cs rest

/-- Declarations with commas between them stand between two texts, or none. -/
inductive DeclaresAll : List Declaration → List Char → List Char → Prop
  /-- None. -/
  | none {cs : List Char} : DeclaresAll [] cs cs
  /-- A declaration, and then more of them. -/
  | some {d : Declaration} {ds : List Declaration} {cs afterFirst rest : List Char} :
    Declares d cs afterFirst → More ds afterFirst rest → DeclaresAll (d :: ds) cs rest

/-! ## Whole texts -/

/-- A text is a layout of these declarations. -/
inductive IsLayoutOf : List Declaration → List Char → Prop
  /-- With parentheses. -/
  | inParentheses {ds : List Declaration} {cs inside start afterAll behind : List Char} :
    Blanks cs ('(' :: inside) → Blanks inside start → DeclaresAll ds start afterAll →
    Blanks afterAll (')' :: behind) → Blanks behind [] → IsLayoutOf ds cs
  /-- Without parentheses. -/
  | bare {ds : List Declaration} {cs start afterAll : List Char} :
    Blanks cs start → DeclaresAll ds start afterAll → Blanks afterAll [] → IsLayoutOf ds cs

end CaptureIngest.Layout
