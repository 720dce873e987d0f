/-!
# TOML values

The tree of a TOML document. A table remembers how it was written, because that decides what may
still be added to it: a table written in braces is closed, one that has had its header may have
none again, and one that only lies on the way to another may still get its own. Numbers with a
fraction and times are kept in their spelling.
-/

namespace CaptureIngest.Toml

/-- How a table came to be. -/
inductive Origin
  /-- Written in braces. -/
  | inline
  /-- By a header of its own. -/
  | header
  /-- On the way to the table of a header. -/
  | implied
  /-- By a key with dots. -/
  | dotted
  deriving DecidableEq, Repr

/-- A value. -/
inductive Value
  /-- A string. -/
  | text (s : String)
  /-- An integer. -/
  | integer (n : Int)
  /-- A truth value. -/
  | boolean (b : Bool)
  /-- A number with a fraction or an exponent, as it is spelled. -/
  | float (spelling : String)
  /-- A date, a time or both, as it is spelled. -/
  | time (spelling : String)
  /-- An array in brackets. -/
  | array (items : List Value)
  /-- A table. -/
  | table (origin : Origin) (entries : List (String × Value))
  /-- Tables under repeated headers in double brackets. -/
  | tables (items : List (List (String × Value)))
  deriving Repr

instance : Inhabited Value := ⟨.array []⟩

/-- The keys of a table with their values, in the order of the document. -/
abbrev Entries := List (String × Value)

namespace Entries

/-- The entries with another value under a key that is there. -/
def replace (es : Entries) (key : String) (v : Value) : Entries :=
  es.map fun e => if e.1 == key then (key, v) else e

/-- Goes down a path of keys and changes the entries of the table there. Tables that are not there
are made on the way; of tables under repeated headers the last is meant. -/
def descend (change : Entries → Option Entries) : List String → Entries → Option Entries
  | [], es => change es
  | key :: path, es =>
    match es.lookup key with
    | none => (descend change path []).map fun sub => es ++ [(key, .table .implied sub)]
    | some (.table .inline _) => none
    | some (.table origin sub) =>
      (descend change path sub).map fun sub => es.replace key (.table origin sub)
    | some (.tables items) =>
      match items.getLast? with
      | none => none
      | some last =>
        (descend change path last).map fun last => es.replace key (.tables (items.dropLast ++ [last]))
    | some _ => none

/-- Writes a value under a key with dots. A table that has its header, or is closed, takes no more
keys this way. -/
def assign (v : Value) : List String → Entries → Option Entries
  | [], _ => none
  | [key], es => if (es.lookup key).isNone then some (es ++ [(key, v)]) else none
  | key :: next :: path, es =>
    match es.lookup key with
    | none => (assign v (next :: path) []).map fun sub => es ++ [(key, .table .dotted sub)]
    | some (.table .dotted sub) =>
      (assign v (next :: path) sub).map fun sub => es.replace key (.table .dotted sub)
    | some (.table .implied sub) =>
      if path.isEmpty then none
      else (assign v (next :: path) sub).map fun sub => es.replace key (.table .implied sub)
    | some (.tables items) =>
      match items.getLast? with
      | none => none
      | some last =>
        if path.isEmpty then none
        else (assign v (next :: path) last).map fun last =>
          es.replace key (.tables (items.dropLast ++ [last]))
    | some _ => none

/-- Opens the table of a header. -/
def openTable (key : String) (es : Entries) : Option Entries :=
  match es.lookup key with
  | none => some (es ++ [(key, .table .header [])])
  | some (.table .implied sub) => some (es.replace key (.table .header sub))
  | some _ => none

/-- Opens one more table of a header in double brackets. -/
def openItem (key : String) (es : Entries) : Option Entries :=
  match es.lookup key with
  | none => some (es ++ [(key, .tables [[]])])
  | some (.tables items) => some (es.replace key (.tables (items ++ [[]])))
  | some _ => none

end Entries

end CaptureIngest.Toml
