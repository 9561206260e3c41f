import TypedConfig.Failure

/-!
# Reports of reading

What reading a file found: how many lines, which of them were dropped with a warning, and whether
the file was rejected for its version.
-/

namespace TypedConfig

/-- Why a line was dropped. -/
inductive WarningKind
  /-- A section header without its closing bracket. -/
  | missingBracket
  /-- A section header that names no section of the file. -/
  | unknownSection
  /-- An option line before the first section header. -/
  | optionOutsideSection
  /-- A line for an option that the section neither has nor makes. -/
  | unknownOption
  /-- A line whose value the option does not take. -/
  | invalidValue
  deriving Repr, DecidableEq

/-- A dropped line: its number from one up, the reason, and what was looked at of it. -/
structure Warning where
  line : Nat
  kind : WarningKind
  text : String
  deriving Repr, DecidableEq

/-- What reading a file found. -/
structure Report where
  linesRead : Nat := 0
  warnings : List Warning := []
  /-- Why the file was rejected, if it was. -/
  rejected : Option Failure := none
  /-- The copy that was made of a rejected file. -/
  backup : Option String := none
  /-- Whether the file was made before it was read. -/
  bootstrapped : Bool := false
  deriving Repr

/-- How many warnings of a kind there are. -/
def Report.count (r : Report) (kind : WarningKind) : Nat :=
  (r.warnings.filter (·.kind == kind)).length

end TypedConfig
