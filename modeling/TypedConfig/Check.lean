import TypedConfig.Failure
import TypedConfig.Text.Blank

/-!
# Checks on definitions

Before a file, a section, an option or engine settings are taken, each rule about them is checked,
and every rule that is broken is told. A check gives the problem it found, if any; `verify` runs
several and fails with all their problems, in the order of the checks.
-/

namespace TypedConfig

/-- A broken rule: the field it is about, what is required of it, and the offending value where
showing it helps. -/
structure Problem where
  field : String
  message : String
  value : Option String := none
  deriving Repr, DecidableEq

/-- A problem in words. -/
def Problem.text (p : Problem) : String :=
  "Field '" ++ p.field ++ "': " ++ p.message ++
    match p.value with
    | some value => " (got: " ++ value ++ ")"
    | none => ""

/-- The failure that tells of problems. -/
def Failure.ofProblems (problems : List Problem) : Failure :=
  .invalid ("; ".intercalate (problems.map Problem.text))

namespace Check

/-- The number has to lie in `lo..hi`. -/
def inRange (n lo hi : Int) (field : String) : Option Problem :=
  if n < lo ∨ hi < n then
    some ⟨field, "must be between " ++ Numeral.ofInt lo ++ " and " ++ Numeral.ofInt hi,
      some (Numeral.ofInt n)⟩
  else none

/-- The bounds have to leave room for a number. -/
def ordered (lo hi : Int) (field : String) : Option Problem :=
  if hi < lo then
    some ⟨field, "minimum must not exceed maximum",
      some (Numeral.ofInt lo ++ ".." ++ Numeral.ofInt hi)⟩
  else none

/-- The text has to hold a character that is not blank. -/
def notEmpty (text field : String) : Option Problem :=
  if Text.isBlankText text then some ⟨field, "must not be empty", none⟩ else none

/-- The list has to hold something. -/
def hasEntries {α : Type} (entries : List α) (field : String) : Option Problem :=
  if entries.isEmpty then some ⟨field, "must list at least one value", none⟩ else none

/-- The number that a text gives in octal, if it is one of 32 bits. -/
def octal? (text : String) : Option Nat :=
  Numeral.natural? 8 Numeral.word32Greatest text.toList

/-- The text has to be an octal number of at most four digits' worth of permission bits. -/
def octalMode (text field : String) : Option Problem :=
  match octal? text with
  | some mode =>
    if mode ≤ 4095 then none else some ⟨field, "must be an octal file mode", some text⟩
  | none => some ⟨field, "must be an octal file mode", some text⟩

/-- Succeeds when no check found a problem, and fails with all of them otherwise. -/
def verify (checks : List (Option Problem)) : Except Failure Unit :=
  match checks.filterMap id with
  | [] => .ok ()
  | problems => .error (Failure.ofProblems problems)

/-- Success means that no check found a problem. -/
theorem verify_eq_ok_iff {checks : List (Option Problem)} :
    verify checks = .ok () ↔ ∀ check ∈ checks, check = none := by
  have hnil : checks.filterMap id = [] ↔ ∀ check ∈ checks, check = none :=
    List.filterMap_eq_nil_iff
  rw [← hnil]
  unfold verify
  split
  · next h => exact ⟨fun _ => h, fun _ => rfl⟩
  · next h => exact ⟨nofun, fun hnone => absurd hnone h⟩

end Check

end TypedConfig
