/-!
# Lines and columns

Texts are built line by line and table rows column by column. Widths count characters.
-/

namespace CaptureIngest.Text

/-- The given number of spaces. -/
def spaces (n : Nat) : String :=
  String.ofList (List.replicate n ' ')

/-- A text followed by as many spaces as a column of this width needs. -/
def padRight (width : Nat) (s : String) : String :=
  s ++ spaces (width - s.length)

/-- A text preceded by as many spaces as a column of this width needs. -/
def padLeft (width : Nat) (s : String) : String :=
  spaces (width - s.length) ++ s

/-- A row of the given number of dashes. -/
def rule (width : Nat) : String :=
  String.ofList (List.replicate width '-')

/-- Lines, each ended by a line feed. -/
def endLines : List String → String
  | [] => ""
  | line :: rest => line ++ "\n" ++ endLines rest

/-- Lines, separated by line feeds. -/
def joinLines (lines : List String) : String :=
  "\n".intercalate lines

/-- A run of spaces holds nothing else. -/
@[simp]
theorem toList_spaces (n : Nat) : (spaces n).toList = List.replicate n ' ' := by
  simp [spaces]

end CaptureIngest.Text
