import TypedConfig.Document
import TypedConfig.Format.Line
import TypedConfig.Text.Utf8

/-!
# Taking in a text

A text is taken in line by line. Option lines go to the section whose header was the last one
before them, and until the first header a version line may be read. No line stops the reading
but a version line with a version that is invalid or too new, which rejects the file; other bad
lines are dropped with a warning. Where the file is of an older version than the document, headers
and option lines go through the document's migration first.

`Document.takeIn` does this for bytes. It knows nothing of the disk: the backup of a rejected file
is made by `Document.parse` in `TypedConfig.Document.Load`.
-/

namespace TypedConfig

/-- Where the next line stands. -/
inductive Standing
  /-- Before the first section header. -/
  | outside
  /-- Under a header that names no section. -/
  | astray
  /-- Under the header of a section. -/
  | within (sectionName : String)
  deriving Repr, DecidableEq

/-- The state between two lines. -/
structure Intake where
  document : Document
  standing : Standing := .outside
  /-- Whether the user was told that the file is of an older version. -/
  announced : Bool := false
  linesRead : Nat := 0
  warnings : List Warning := []
  rejected : Option Failure := none

namespace Intake

/-- Drops a line: the user is warned and the warning is noted. -/
def warn (t : Intake) (origin : String) (kind : WarningKind) (line reason : String) :
    Traced Intake := do
  Traced.warn ("Warning: " ++ origin ++ ", line " ++ Numeral.ofNat t.linesRead ++ ": " ++ reason)
  pure { t with warnings := t.warnings ++ [⟨t.linesRead, kind, line⟩] }

/-- Rejects the file. -/
def reject (t : Intake) (failure : Failure) (reason : String) : Traced Intake := do
  Traced.complain ("Error: " ++ reason ++
    " => rest of file is IGNORED, default options are used")
  pure { t with rejected := some failure }

/-- Migrates a line of an older file, and tells the user once that it is older. -/
def migrate (t : Intake) (origin : String) (line : LineData) : Traced (Intake × LineData) :=
  if t.document.version ≤ t.document.versionRead then pure (t, line)
  else do
    if !t.announced then
      Traced.warn ("Important: file " ++ origin ++ " has been updated from version " ++
        Numeral.ofNat t.document.versionRead ++ " to " ++ Numeral.ofNat t.document.version ++
        ", it is not compatible and can not be loaded any more with any older version")
    let t := { t with announced := true }
    match t.document.migration with
    | some migration => do
      let line ← migration.run line
      pure (t, line)
    | none => pure (t, line)

/-- The data of a line for the migration. -/
def lineData (t : Intake) (sectionName : String) (option value : Option String) : LineData :=
  { config := t.document.name, versionRead := t.document.versionRead, sectionName, option, value }

/-- Opens the section that a header names after its migration; a migration to the empty name
leaves the name as it is. -/
def openSection (t : Intake) (origin line name : String) : Traced Intake := do
  let (t, data) ← t.migrate origin (t.lineData name none none)
  let name := if data.sectionName = "" then name else data.sectionName
  match t.document.section? name with
  | some _ => pure { t with standing := .within name }
  | none =>
    Intake.warn { t with standing := .astray } origin .unknownSection line
      ("ignoring unknown section identifier (\"" ++ name ++ "\")")

/-- Takes in a version line. -/
def takeVersion (t : Intake) (origin line : String) (raw : Option String) : Traced Intake :=
  match Line.version? raw with
  | none =>
    t.reject (.invalidVersion origin (raw.getD ""))
      (origin ++ ", line " ++ Numeral.ofNat t.linesRead ++ ": invalid config version: \"" ++
        line ++ "\"")
  | some version =>
    let t := { t with document := { t.document with versionRead := version } }
    if version ≤ t.document.version then pure t
    else t.reject (.versionTooNew origin version t.document.version)
      (origin ++ ", version read (" ++ Numeral.ofNat version ++
        ") is newer than supported version (" ++ Numeral.ofNat t.document.version ++ ")")

/-- Takes in an option line under a section's header, which its migration may drop. -/
def takeOption (t : Intake) (origin line sectionName name : String) (value : Option String) :
    Traced Intake := do
  let (t, data) ← t.migrate origin (t.lineData sectionName (some name) value)
  let option := data.option.getD ""
  if option = "" then pure t
  else do
    let (document, answer) ←
      t.document.onSection sectionName fun s => s.applyLine option data.value
    let t := { t with document }
    match answer with
    | some (.error (.unknownOption ..)) =>
      t.warn origin .unknownOption line
        ("ignoring unknown option for section \"" ++ sectionName ++ "\": " ++ line)
    | some (.error failure) => do
      Traced.log .debug (origin ++ ": " ++ failure.message)
      t.warn origin .invalidValue line
        ("ignoring invalid value for option in section \"" ++ sectionName ++ "\": " ++ line)
    | _ => pure t

/-- Takes in one line. -/
def takeLine (t : Intake) (origin : String) (text : List Char) : Traced Intake :=
  let t := { t with linesRead := t.linesRead + 1 }
  let line := String.ofList (Line.content text)
  match Line.ofText text with
  | .skipped => pure t
  | .unclosedHeader =>
    t.warn origin .missingBracket line "invalid syntax, missing \"]\""
  | .header name => t.openSection origin line name
  | .option name raw =>
    match t.standing with
    | .outside =>
      if name = Line.versionName then t.takeVersion origin line raw
      else t.warn origin .optionOutsideSection line ("ignoring option outside section: " ++ line)
    | .astray => do
      Traced.log .debug
        (origin ++ ", line " ++ Numeral.ofNat t.linesRead ++ ": dropped, unknown section")
      pure t
    | .within sectionName => t.takeOption origin line sectionName name (Line.value raw)

/-- Takes in lines until one rejects the file. -/
def takeLines (origin : String) : List (List Char) → Intake → Traced Intake
  | [], t => pure t
  | line :: lines, t => do
    let t ← t.takeLine origin line
    if t.rejected.isSome then pure t else takeLines origin lines t

/-- What was found. -/
def report (t : Intake) : Report :=
  { linesRead := t.linesRead, warnings := t.warnings, rejected := t.rejected }

end Intake

/-- The lines of bytes without their line feeds; bytes after the last line feed are a line too. -/
def linesOf : List UInt8 → List (List UInt8)
  | [] => []
  | b :: bs =>
    if b = 10 then [] :: linesOf bs
    else match linesOf bs with
      | line :: lines => (b :: line) :: lines
      | [] => [[b]]

/-- Takes bytes in as a text of the document. -/
def Document.takeIn (d : Document) (origin : String) (bytes : List UInt8) : Traced Intake :=
  Intake.takeLines origin ((linesOf bytes).map Utf8.decode)
    { document := { d with versionRead := 1 } }

end TypedConfig
