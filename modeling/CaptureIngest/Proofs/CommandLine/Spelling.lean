import CaptureIngest.CommandLine.Arguments
import Mathlib.Data.List.TakeDrop

/-!
# Command lines that spell options

An option with a value is written `--name=value`, one without `--name`; behind `--` there are only
positional arguments. What is written so is scanned as it was meant, whatever the values hold.

* `Flag.spelling f value`: an option as it is written, with its value if there is one.
* `Flag.Takes f value`: whether an option has a value is as the option wants it.
* **One option** (`scan_spelling`): an option that is written so is handed out with its value.
* **Whole command lines** (`scan_commandLine`): options, two hyphens and positional arguments are scanned
  as just these items. The induction is on the options; nothing is ever held back.
* **Values** (`Arguments.sizeOf_repr` and its like): a value is read back from the text in which it is
  written.
-/

namespace CaptureIngest

open CommandLine

/-! ## Options as they are written -/

/-- A name behind two hyphens is that of an option; what follows it is nothing, or a sign and a value. -/
theorem CommandLine.Form.ofChars_long {name behind : List Char} (hne : name ≠ [])
    (hname : ∀ c ∈ name, (c != '=') = true) (hbehind : behind.dropWhile (· != '=') = behind) :
    ofChars ('-' :: '-' :: (name ++ behind)) =
      long (.ofList name) (behind.tail?.map .ofList) := by
  have htake : behind.takeWhile (· != '=') = [] := by
    have hparts := List.takeWhile_append_dropWhile (p := (· != '=')) (l := behind)
    rw [hbehind] at hparts
    simpa using hparts
  obtain ⟨c, cs, rfl⟩ := List.exists_cons_of_ne_nil hne
  rw [List.cons_append, ofChars]
  · rw [← List.cons_append, List.takeWhile_append_of_pos hname, List.dropWhile_append_of_pos hname,
      htake, hbehind, List.append_nil]
    cases behind <;> rfl
  · simp

namespace Flag

/-- An option as it is written, with its value if there is one. -/
def spelling (f : Flag) : Option String → String
  | some value => "--" ++ f.long ++ "=" ++ value
  | none => "--" ++ f.long

/-- Options that have no value are given none, and all others are given one. -/
def Takes (f : Flag) (value : Option String) : Prop :=
  f.arity = .none ↔ value = none

/-- No long name holds the sign that parts it from a value. -/
theorem equals_not_mem_long (f : Flag) : '=' ∉ f.long.toList := by
  cases f <;> decide

/-- Every option has a long name. -/
theorem long_ne_nil (f : Flag) : f.long.toList ≠ [] := by
  cases f <;> decide

/-- An option is found under its long name. -/
theorem long?_long (f : Flag) : options.long? f.long = some f := by
  cases f <;> decide

/-- An option that is written out is recognised by its form. -/
theorem form_spelling (f : Flag) (value : Option String) :
    Form.of (f.spelling value) = .long f.long value := by
  have hname : ∀ c ∈ f.long.toList, (c != '=') = true := by
    intro c hc
    simpa using ne_of_mem_of_not_mem hc f.equals_not_mem_long
  cases value with
  | none =>
    have hchars : (f.spelling none).toList = '-' :: '-' :: (f.long.toList ++ []) := by
      simp [spelling]
    rw [Form.of, hchars, Form.ofChars_long f.long_ne_nil hname rfl, String.ofList_toList]
    rfl
  | some value =>
    have hchars : (f.spelling (some value)).toList =
        '-' :: '-' :: (f.long.toList ++ '=' :: value.toList) := by
      simp [spelling]
    rw [Form.of, hchars, Form.ofChars_long f.long_ne_nil hname rfl, String.ofList_toList,
      List.tail?_cons, Option.map_some, String.ofList_toList]

end Flag

/-! ## Scanning -/

/-- **One option**: it is handed out with its value. -/
theorem scan_spelling {f : Flag} {value : Option String} (h : f.Takes value) (rest : List String) :
    scan Flag.options none (f.spelling value :: rest) =
      emit [.option f value] (scan Flag.options none rest) := by
  have harity : Flag.options.arity f = f.arity := rfl
  rw [scan, f.form_spelling]
  case x_2 => nofun
  simp only [f.long?_long, harity, release, List.nil_append]
  cases value with
  | none => rw [h.mpr rfl]
  | some value =>
    cases hvalue : f.arity with
    | none => exact absurd (h.mp hvalue) (by simp)
    | optional => rfl
    | one => rfl

/-- **Whole command lines**: options, two hyphens and positional arguments are scanned as just these
items. -/
theorem scan_commandLine {given : List (Flag × Option String)} (h : ∀ g ∈ given, g.1.Takes g.2)
    (positionals : List String) :
    scan Flag.options none (given.map (fun g => g.1.spelling g.2) ++ "--" :: positionals) =
      (given.map (fun g => .option g.1 g.2) ++ positionals.map .positional, none) := by
  induction given with
  | nil =>
    have hescape : Form.of "--" = .escape := rfl
    rw [List.map_nil, List.nil_append, scan, hescape]
    case x_2 => nofun
    rfl
  | cons g given ih =>
    rw [List.map_cons, List.cons_append, scan_spelling (h g List.mem_cons_self),
      ih fun g' hg' => h g' (List.mem_cons_of_mem g hg')]
    rfl

/-! ## Values -/

namespace Arguments

/-- A truth value as it is written. -/
def flagText : Bool → String
  | true => "true"
  | false => "false"

/-- A truth value is read from how it is written. -/
theorem flagOf_flagText (b : Bool) : flagOf (flagText b) = .ok b := by
  cases b <;> rfl

/-- A path is read as it stands unless it is empty. -/
theorem pathOf_of_ne {path : String} (h : path ≠ "") : pathOf path = .ok path := by
  rw [pathOf, if_neg (by simpa using h)]

/-- A number is what its digits spell. -/
theorem decimal_toDigits (n : Nat) : decimal (Nat.toDigits 10 n) = n := by
  have h := Nat.ofDigitChars_ten_toDigits (n := n)
  rw [Nat.ofDigitChars_eq_foldl] at h
  exact h

/-- A number of 64 bits is read back from its digits. -/
theorem sizeOf_repr (n : UInt64) : sizeOf (Nat.repr n.toNat) = .ok n := by
  have hdigits : ∀ c ∈ Nat.toDigits 10 n.toNat, c.isDigit = true := fun c hc =>
    Nat.isDigit_of_mem_toDigits (by decide) (by decide) hc
  have hall : (Nat.toDigits 10 n.toNat).all Char.isDigit = true := List.all_eq_true.mpr hdigits
  have hsize : ¬ UInt64.size ≤ n.toNat := Nat.not_le.mpr n.toNat_lt_size
  have hnumber := decimal_toDigits n.toNat
  unfold sizeOf
  rw [Nat.toList_repr]
  cases hcs : Nat.toDigits 10 n.toNat with
  | nil => exact absurd hcs Nat.toDigits_ne_nil
  | cons c cs =>
    rw [hcs] at hdigits hall hnumber
    -- no sign stands in front of the digits
    split
    · next ds h =>
      obtain ⟨rfl, -⟩ := List.cons.inj h
      exact absurd (hdigits '+' List.mem_cons_self) (by decide)
    · simp only [List.isEmpty_cons, hall, hnumber, hsize, UInt64.ofNat_toNat]
      rfl

end Arguments

end CaptureIngest
