/-!
# Quoted texts

A name that is a plain identifier is written as it is; any other name stands between single
quotes, and a string literal always stands between double quotes. Inside the quotes a line
feed, a carriage return and a tab are written `\n`, `\r` and `\t`, and a backslash or the quote
itself follows a backslash. No quoted text therefore holds a line break.

`readBody` is the reader of this notation: it starts behind the opening quote and stops at the
first quote that is not escaped. `readQuoted` starts at the opening quote.
-/

namespace CaptureIngest.Text

/-! ## Plain identifiers -/

/-- The characters that an identifier may begin with. -/
def isNameStart (c : Char) : Bool :=
  c.isAlpha || c == '_'

/-- The characters that an identifier may go on with. -/
def isNameChar (c : Char) : Bool :=
  c.isAlphanum || c == '_'

/-- An ASCII letter or underscore, followed by ASCII letters, digits and underscores. -/
def isPlainIdentifier (s : String) : Bool :=
  match s.toList with
  | [] => false
  | c :: cs => isNameStart c && cs.all isNameChar

/-! ## Writing -/

/-- One character as it is written between two `quote` marks. -/
def escapeChar (quote c : Char) : List Char :=
  if c = '\n' then ['\\', 'n']
  else if c = '\r' then ['\\', 'r']
  else if c = '\t' then ['\\', 't']
  else if c = '\\' ∨ c = quote then ['\\', c]
  else [c]

/-- The characters of a text as they are written between two `quote` marks. -/
def escape (quote : Char) (cs : List Char) : List Char :=
  cs.flatMap (escapeChar quote)

/-- A text between two `quote` marks. -/
def quoteWith (quote : Char) (s : String) : String :=
  String.ofList (quote :: escape quote s.toList ++ [quote])

/-- A string literal. -/
def quoteString (s : String) : String :=
  quoteWith '"' s

/-- A name, quoted unless it is a plain identifier. -/
def quoteIdentifier (s : String) : String :=
  if isPlainIdentifier s then s else quoteWith '\'' s

/-- A quoted text stands between quotes, escaped. -/
theorem toList_quoteString (s : String) :
    (quoteString s).toList = '"' :: escape '"' s.toList ++ ['"'] := by
  simp [quoteString, quoteWith]

@[simp]
theorem escape_nil (quote : Char) : escape quote [] = [] := rfl

@[simp]
theorem escape_cons (quote c : Char) (cs : List Char) :
    escape quote (c :: cs) = escapeChar quote c ++ escape quote cs := rfl

/-- Texts are escaped part by part. -/
theorem escape_append (quote : Char) (cs ds : List Char) :
    escape quote (cs ++ ds) = escape quote cs ++ escape quote ds := by
  simp [escape]

/-! ## Reading -/

/-- The character that stands for `c` behind a backslash, if any does. -/
def unescape? (quote c : Char) : Option Char :=
  if c = 'n' then some '\n'
  else if c = 'r' then some '\r'
  else if c = 't' then some '\t'
  else if c = '\\' ∨ c = quote then some c
  else none

/-- Reads up to the closing quote: the text that was quoted, and what stands behind it. -/
def readBody (quote : Char) : List Char → Option (List Char × List Char)
  | [] => none
  | c :: rest =>
    if c = quote then some ([], rest)
    else if c = '\\' then
      match rest with
      | [] => none
      | d :: rest => do
        let e ← unescape? quote d
        let (body, after) ← readBody quote rest
        return (e :: body, after)
    else do
      let (body, after) ← readBody quote rest
      return (c :: body, after)

/-- Reads a quoted text that a text begins with: what was quoted, and what stands behind it. -/
def readQuoted (quote : Char) (s : String) : Option (String × String) :=
  match s.toList with
  | [] => none
  | c :: rest =>
    if c = quote then
      (readBody quote rest).map fun r => (String.ofList r.1, String.ofList r.2)
    else none

end CaptureIngest.Text
