import CaptureIngest.Toml.Text
import CaptureIngest.Toml.Value

/-!
# TOML values without quotes

Truth values, integers, numbers with a fraction, and times are written without quotes, as one run
of letters, digits and a few signs. Integers may be decimal with a sign, or hexadecimal, octal or
binary without one; single underscores may stand between digits; a decimal integer has no leading
zero; and the value must fit 64 bits.
-/

namespace CaptureIngest.Toml

/-- The characters of values without quotes. -/
def isScalarChar (c : Char) : Bool :=
  c.isAlphanum || c == '+' || c == '-' || c == '_' || c == '.' || c == ':'

/-! ## Integers -/

/-- The digits of a run that may have single underscores between digits. -/
def digits? (isDigit : Char → Bool) : List Char → Option (List Char)
  | [] => none
  | [c] => if isDigit c then some [c] else none
  | c :: '_' :: rest => if isDigit c then (digits? isDigit rest).map (c :: ·) else none
  | c :: rest => if isDigit c then (digits? isDigit rest).map (c :: ·) else none

/-- The number that digits spell in a base. -/
def number (base : Nat) (ds : List Char) : Nat :=
  ds.foldl (fun n c => base * n + (hexDigit? c).getD 0) 0

/-- A decimal number without a leading zero. -/
def decimal? (cs : List Char) : Option Nat := do
  let ds ← digits? Char.isDigit cs
  if ds.length > 1 && ds.head? == some '0' then none else some (number 10 ds)

/-- An integer that fits 64 bits. -/
def integer64 (n : Int) : Option Value :=
  if -0x8000000000000000 ≤ n ∧ n < 0x8000000000000000 then some (.integer n) else none

/-- An integer in one of its spellings. -/
def integer? : List Char → Option Value
  | '0' :: 'x' :: cs =>
    (digits? (fun c => (hexDigit? c).isSome) cs).bind fun ds => integer64 (number 16 ds)
  | '0' :: 'o' :: cs => (digits? (fun c => '0' ≤ c && c ≤ '7') cs).bind fun ds => integer64 (number 8 ds)
  | '0' :: 'b' :: cs => (digits? (fun c => c == '0' || c == '1') cs).bind fun ds => integer64 (number 2 ds)
  | '+' :: cs => (decimal? cs).bind fun n => integer64 n
  | '-' :: cs => (decimal? cs).bind fun n => integer64 (-n)
  | cs => (decimal? cs).bind fun n => integer64 n

/-! ## Numbers with a fraction -/

/-- A text without its sign. -/
def unsigned : List Char → List Char
  | '+' :: cs => cs
  | '-' :: cs => cs
  | cs => cs

/-- An exponent, from its letter on. -/
def isExponent : List Char → Bool
  | 'e' :: cs => (digits? Char.isDigit (unsigned cs)).isSome
  | 'E' :: cs => (digits? Char.isDigit (unsigned cs)).isSome
  | _ => false

/-- A number with a fraction, an exponent or both, an infinity, or no number at all. -/
def isFloat (cs : List Char) : Bool :=
  let magnitude := unsigned cs
  if magnitude = "inf".toList ∨ magnitude = "nan".toList then true
  else
    let isBody := fun c : Char => c.isDigit || c == '_'
    (decimal? (magnitude.takeWhile isBody)).isSome &&
      match magnitude.dropWhile isBody with
      | '.' :: rest =>
        (digits? Char.isDigit (rest.takeWhile isBody)).isSome &&
          ((rest.dropWhile isBody).isEmpty || isExponent (rest.dropWhile isBody))
      | rest => isExponent rest

/-! ## Times -/

/-- Two digits whose number lies between two bounds. -/
def isPair (low high : Nat) (a b : Char) : Bool :=
  a.isDigit && b.isDigit && low ≤ number 10 [a, b] && number 10 [a, b] ≤ high

/-- A date. -/
def isDate : List Char → Bool
  | [a, b, c, d, '-', e, f, '-', g, h] =>
    a.isDigit && b.isDigit && c.isDigit && d.isDigit && isPair 1 12 e f && isPair 1 31 g h
  | _ => false

/-- What may follow the seconds of a time that has a date: nothing, or an offset. -/
def isOffset : List Char → Bool
  | [] => true
  | ['Z'] => true
  | ['z'] => true
  | [sign, a, b, ':', c, d] => (sign == '+' || sign == '-') && isPair 0 23 a b && isPair 0 59 c d
  | _ => false

/-- A time of day, followed by what `isEnd` accepts. -/
def isTimeOfDay (isEnd : List Char → Bool) : List Char → Bool
  | a :: b :: ':' :: c :: d :: ':' :: e :: f :: rest =>
    isPair 0 23 a b && isPair 0 59 c d && isPair 0 60 e f &&
      match rest with
      | '.' :: fraction =>
        !(fraction.takeWhile Char.isDigit).isEmpty && isEnd (fraction.dropWhile Char.isDigit)
      | rest => isEnd rest
  | _ => false

/-- A date, a time of day, or both with `T` between them. -/
def isTime (cs : List Char) : Bool :=
  isDate cs || isTimeOfDay List.isEmpty cs ||
    (isDate (cs.take 10) &&
      match cs.drop 10 with
      | 'T' :: rest => isTimeOfDay isOffset rest
      | 't' :: rest => isTimeOfDay isOffset rest
      | _ => false)

/-! ## All of them -/

/-- The value that a run of characters spells. -/
def scalar? (cs : List Char) : Option Value :=
  if cs = "true".toList then some (.boolean true)
  else if cs = "false".toList then some (.boolean false)
  else if isTime cs then some (.time (.ofList cs))
  else if isFloat cs then some (.float (.ofList cs))
  else integer? cs

/-- Reads a value without quotes. A time may be set off from its date by a space. -/
def readScalar (cs : List Char) : Option (Value × List Char) :=
  let run := cs.takeWhile isScalarChar
  let rest := cs.dropWhile isScalarChar
  match rest with
  | ' ' :: more =>
    let time := more.takeWhile isScalarChar
    if isDate run && isTimeOfDay isOffset time then
      some (.time (.ofList (run ++ ' ' :: time)), more.dropWhile isScalarChar)
    else (scalar? run).map (·, rest)
  | _ => (scalar? run).map (·, rest)

end CaptureIngest.Toml
