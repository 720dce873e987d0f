/-!
# Field types

The engine knows seven primitive types. Addresses are not among them: an IPv4 address travels as
`u32`, an IPv6 address as `string` and a MAC address as `u64`.
-/

namespace CaptureIngest

/-- The type of a field's values. -/
inductive Kind
  | bool | u8 | u16 | u32 | u64 | u128 | string
  deriving DecidableEq, Repr, Inhabited

namespace Kind

/-- Every type, in declaration order. -/
def all : List Kind := [bool, u8, u16, u32, u64, u128, string]

theorem mem_all (k : Kind) : k ∈ all := by
  cases k <;> decide

/-- The type as a field list writes it. -/
def name : Kind → String
  | bool => "bool"
  | u8 => "u8"
  | u16 => "u16"
  | u32 => "u32"
  | u64 => "u64"
  | u128 => "u128"
  | string => "string"

/-- The type of exactly this name. -/
def ofName? (s : String) : Option Kind :=
  all.find? fun k => k.name == s

/-- The unsigned integers of any width. -/
def isUnsigned : Kind → Bool
  | u8 | u16 | u32 | u64 | u128 => true
  | bool | string => false

/-- The name of a kind names this kind. -/
theorem ofName?_name (k : Kind) : ofName? k.name = some k := by
  cases k <;> decide

end Kind

end CaptureIngest
