/-!
# The syntax of command lines

A command line is a list of arguments, some of which are options. An option has a long name behind
two hyphens and may have a short one, a single character behind one hyphen. Its value is attached
to it — `--name=value`, `-nvalue`, `-n=value` — or is the next argument, unless that looks like an
option. Short options without a value may share a hyphen with what follows. A lone hyphen is no
option, and behind `--` no argument is one.

`scan` splits a command line into its items. An option that is waiting for a value, or has just
got one from the next argument, is handed out only together with what comes after it; an argument
that cannot be scanned therefore takes it away. Which of two mistakes in a command line is
reported depends on this.
-/

namespace CaptureIngest.CommandLine

/-- Whether an option has a value. -/
inductive Arity
  /-- It has none. -/
  | none
  /-- It may have one. -/
  | optional
  /-- It must have one. -/
  | one
  deriving DecidableEq, Repr

/-- The options that a program knows. -/
structure Options (ι : Type) where
  /-- The option of a long name. -/
  long? : String → Option ι
  /-- The option of a short name. -/
  short? : Char → Option ι
  /-- Whether an option has a value. -/
  arity : ι → Arity

/-- A part of a command line. -/
inductive Item (ι : Type)
  /-- An argument that is no option. -/
  | positional (s : String)
  /-- An option with the value that was given. -/
  | option (name : ι) (value : Option String)
  deriving DecidableEq, Repr

/-- Why a command line cannot be followed. -/
inductive Problem
  /-- An argument looks like an option and is none. -/
  | unknownOption
  /-- An option without a value has one attached. -/
  | unwantedValue
  /-- An option has no value or one that it does not allow. -/
  | badValue
  /-- The value of an option is no number. -/
  | notANumber
  /-- Two options exclude each other, or one is given twice. -/
  | conflict
  /-- Help is asked for. -/
  | help
  /-- The version is asked for. -/
  | version
  deriving DecidableEq, Repr

/-! ## Arguments -/

/-- An argument, by its form. -/
inductive Form
  /-- No further argument is an option. -/
  | escape
  /-- A long option, with its value if one is attached. -/
  | long (name : String) (value : Option String)
  /-- Short options behind one hyphen. -/
  | short (cluster : List Char)
  /-- No option. -/
  | plain
  deriving DecidableEq, Repr

/-- The form of an argument. -/
def Form.ofChars : List Char → Form
  | ['-', '-'] => escape
  | '-' :: '-' :: rest =>
    let name := String.ofList (rest.takeWhile (· != '='))
    match rest.dropWhile (· != '=') with
    | _ :: value => long name (some (.ofList value))
    | [] => long name Option.none
  | ['-'] => plain
  | '-' :: rest => short rest
  | _ => plain

/-- The form of an argument. -/
def Form.of (argument : String) : Form :=
  .ofChars argument.toList

/-! ## Scanning -/

section

variable {ι : Type} (options : Options ι)

/-- The items of short options behind one hyphen, and then the option that waits for a value, if
the last one does. -/
def cluster : List Char → List (Item ι) × Except Problem (Option ι)
  | [] => ([], .ok none)
  | c :: rest =>
    match options.short? c with
    | none => ([], .error .unknownOption)
    | some i =>
      match options.arity i with
      | .none =>
        match cluster rest with
        | (items, result) => (.option i none :: items, result)
      | _ =>
        match rest with
        | [] => ([], .ok (some i))
        | '=' :: value => ([.option i (some (.ofList value))], .ok none)
        | value => ([.option i (some (.ofList value))], .ok none)

/-- What is handed out of an option that was held back. -/
def release : Option (ι × Option String) → List (Item ι)
  | none => []
  | some (i, value) => [.option i value]

/-- Items in front of those that are still to be scanned. -/
def emit (items : List (Item ι)) (later : List (Item ι) × Option Problem) :
    List (Item ι) × Option Problem :=
  (items ++ later.1, later.2)

/-- The items of a command line, up to an argument that cannot be scanned; `held` is the option
that is held back. -/
def scan (held : Option (ι × Option String)) : List String → List (Item ι) × Option Problem
  | [] => (release held, none)
  | argument :: rest =>
    match Form.of argument with
    | .escape => (release held ++ rest.map .positional, none)
    | .long name value =>
      match options.long? name with
      | none => ([], some .unknownOption)
      | some i =>
        match options.arity i, value with
        | .none, some _ => ([], some .unwantedValue)
        | .none, none => emit (release held ++ [.option i none]) (scan none rest)
        | _, some v => emit (release held ++ [.option i (some v)]) (scan none rest)
        | _, none => emit (release held) (scan (some (i, none)) rest)
    | .short cs =>
      match cluster options cs with
      | ([], .error p) => ([], some p)
      | (items, .error p) => (release held ++ items, some p)
      | (items, .ok none) => emit (release held ++ items) (scan none rest)
      | (items, .ok (some i)) => emit (release held ++ items) (scan (some (i, none)) rest)
    | .plain =>
      match held with
      | some (i, none) => scan (some (i, some argument)) rest
      | _ => emit (release held ++ [.positional argument]) (scan none rest)

end

end CaptureIngest.CommandLine
