import CaptureIngest.Toml.Scalar

/-!
# TOML documents

A document is a list of statements, one a line: a header opens a table, and a key with a value
writes into the table that was opened last. `readStatements` reads them and `assemble` builds the
tree; a document is refused if either fails. Arrays and tables in braces nest, so the readers of
values carry a bound on the depth of their calls, which the length of the text gives.
-/

namespace CaptureIngest.Toml

/-- One line of a document that says something. -/
inductive Statement
  /-- A header in brackets. -/
  | openTable (path : List String)
  /-- A header in double brackets. -/
  | openItem (path : List String)
  /-- A key with its value. -/
  | assign (path : List String) (value : Value)

/-! ## Blanks -/

/-- Skips the blanks of a line. -/
def skipGap (cs : List Char) : List Char :=
  cs.dropWhile isGap

/-- Reads the end of a line: blanks, a comment if there is one, and a line end or the end of the
document. -/
def readLineEnd (cs : List Char) : Option (List Char) :=
  let afterComment :=
    match skipGap cs with
    | '#' :: body => body.dropWhile isTextChar
    | rest => rest
  match afterComment with
  | [] => some []
  | '\n' :: rest => some rest
  | '\r' :: '\n' :: rest => some rest
  | _ => none

/-- Skips blanks, line ends and comments, as they may stand in an array. -/
def skipTrivia (inComment : Bool) : List Char → Option (List Char)
  | [] => some []
  | '\n' :: rest => skipTrivia false rest
  | '\r' :: '\n' :: rest => skipTrivia false rest
  | c :: rest =>
    if inComment then if isTextChar c then skipTrivia true rest else none
    else if isGap c then skipTrivia false rest
    else if c = '#' then skipTrivia true rest
    else some (c :: rest)

/-! ## Keys -/

/-- The characters of a key without quotes. -/
def isKeyChar (c : Char) : Bool :=
  c.isAlphanum || c == '_' || c == '-'

/-- Reads one key. -/
def readKey (cs : List Char) : Option (String × List Char) :=
  let bare := cs.takeWhile isKeyChar
  if bare.isEmpty then (readShortString cs).map fun (s, rest) => (.ofList s, rest)
  else some (.ofList bare, cs.dropWhile isKeyChar)

/-- Reads keys with dots between them. -/
def readPath : Nat → List Char → Option (List String × List Char)
  | 0, _ => none
  | fuel + 1, cs => do
    let (key, rest) ← readKey (skipGap cs)
    match skipGap rest with
    | '.' :: rest =>
      let (path, rest) ← readPath fuel rest
      return (key :: path, rest)
    | rest => return ([key], rest)

/-! ## Values -/

mutual

/-- Reads a value. -/
def readValue : Nat → List Char → Option (Value × List Char)
  | 0, _ => none
  | fuel + 1, cs =>
    match cs with
    | '[' :: rest => (readItems fuel rest).map fun (items, rest) => (.array items, rest)
    | '\x7b' :: rest =>
      match skipGap rest with
      | '\x7d' :: rest => some (.table .inline [], rest)
      | rest => (readPairs fuel [] rest).map fun (entries, rest) => (.table .inline entries, rest)
    | '"' :: _ => (readString cs).map fun (s, rest) => (.text (.ofList s), rest)
    | '\'' :: _ => (readString cs).map fun (s, rest) => (.text (.ofList s), rest)
    | cs => readScalar cs

/-- Reads the items of an array and its closing bracket. A comma may stand behind the last. -/
def readItems : Nat → List Char → Option (List Value × List Char)
  | 0, _ => none
  | fuel + 1, cs => do
    match ← skipTrivia false cs with
    | ']' :: rest => return ([], rest)
    | rest =>
      let (item, rest) ← readValue fuel rest
      match ← skipTrivia false rest with
      | ',' :: rest =>
        let (items, rest) ← readItems fuel rest
        return (item :: items, rest)
      | ']' :: rest => return ([item], rest)
      | _ => none

/-- Reads the keys and values of a table in braces and its closing brace. -/
def readPairs : Nat → Entries → List Char → Option (Entries × List Char)
  | 0, _, _ => none
  | fuel + 1, entries, cs => do
    let (path, rest) ← readPath (cs.length + 1) cs
    match rest with
    | '=' :: rest =>
      let (value, rest) ← readValue fuel (skipGap rest)
      let entries ← entries.assign value path
      match skipGap rest with
      | ',' :: rest => readPairs fuel entries rest
      | '\x7d' :: rest => return (entries, rest)
      | _ => none
    | _ => none

end

/-! ## Statements -/

/-- Reads a key with its value. -/
def readAssignment (cs : List Char) : Option (Statement × List Char) := do
  let (path, rest) ← readPath (cs.length + 1) cs
  match rest with
  | '=' :: rest =>
    let (value, rest) ← readValue (2 * rest.length + 2) (skipGap rest)
    return (.assign path value, rest)
  | _ => none

/-- Reads a header. -/
def readHeader : List Char → Option (Statement × List Char)
  | '[' :: '[' :: cs => do
    let (path, rest) ← readPath (cs.length + 1) cs
    match rest with
    | ']' :: ']' :: rest => return (.openItem path, rest)
    | _ => none
  | '[' :: cs => do
    let (path, rest) ← readPath (cs.length + 1) cs
    match rest with
    | ']' :: rest => return (.openTable path, rest)
    | _ => none
  | _ => none

/-- Reads the statements of so many lines at most. -/
def readLines : Nat → List Char → Option (List Statement)
  | 0, cs => if cs.isEmpty then some [] else none
  | fuel + 1, cs =>
    match skipGap cs with
    | [] => some []
    | c :: rest =>
      if c = '#' ∨ c = '\n' ∨ c = '\r' then (readLineEnd (c :: rest)).bind (readLines fuel)
      else do
        let (statement, rest) ← if c = '[' then readHeader (c :: rest) else readAssignment (c :: rest)
        let rest ← readLineEnd rest
        let statements ← readLines fuel rest
        return statement :: statements

/-- Reads the statements of a document. A byte order mark at its beginning does not count. -/
def readStatements (cs : List Char) : Option (List Statement) :=
  match cs with
  | '\ufeff' :: cs => readLines (cs.length + 1) cs
  | cs => readLines (cs.length + 1) cs

/-! ## The tree -/

/-- Builds on the entries of a document, with the path of the table that was opened last. -/
def assemble (opened : List String) (entries : Entries) : List Statement → Option Entries
  | [] => some entries
  | .openTable path :: rest => do
    let entries ← entries.descend (Entries.openTable (path.getLast?.getD "")) path.dropLast
    assemble path entries rest
  | .openItem path :: rest => do
    let entries ← entries.descend (Entries.openItem (path.getLast?.getD "")) path.dropLast
    assemble path entries rest
  | .assign path value :: rest => do
    let entries ← entries.descend (Entries.assign value path) opened
    assemble opened entries rest

/-- The tree of a document, if the text is one. -/
def read (text : String) : Option Entries :=
  (readStatements text.toList).bind (assemble [] [])

end CaptureIngest.Toml
