import TypedConfig.Disk.Access
import TypedConfig.Event
import TypedConfig.Settings
import TypedConfig.Text.Utf8
import TypedConfig.Toml.Reader
import TypedConfig.Toml.Writer

/-!
# Settings as a TOML file

Settings are kept in a TOML document with a key for each of them. A missing key means the usual
value and an unknown key means nothing, but a value of another type makes the document malformed.
-/

namespace TypedConfig.Settings

/-- The document of the settings. -/
def toToml (s : Settings) : String :=
  Toml.line "save_with_fsync" (if s.saveWithFsync then "true" else "false") ++
  Toml.line "file_permissions" (Toml.quoted s.filePermissions) ++
  Toml.line "product_name" (Toml.quoted s.productName) ++
  Toml.line "product_version" (Toml.quoted s.productVersion) ++
  Toml.line "help_url" (Toml.quoted s.helpUrl)

/-- The text under a key, or the usual one where the key is missing. -/
def stringAt? (entries : List (String × Toml.Value)) (key usual : String) : Option String :=
  match Toml.lookup? key entries with
  | none => some usual
  | some (.string text) => some text
  | some _ => none

/-- The truth value under a key, or the usual one where the key is missing. -/
def booleanAt? (entries : List (String × Toml.Value)) (key : String) (usual : Bool) :
    Option Bool :=
  match Toml.lookup? key entries with
  | none => some usual
  | some (.boolean flag) => some flag
  | some _ => none

/-- The settings in a document. -/
def ofToml? (text : List Char) : Option Settings := do
  let entries ← Toml.document? text
  let usual : Settings := {}
  let saveWithFsync ← booleanAt? entries "save_with_fsync" usual.saveWithFsync
  let filePermissions ← stringAt? entries "file_permissions" usual.filePermissions
  let productName ← stringAt? entries "product_name" usual.productName
  let productVersion ← stringAt? entries "product_version" usual.productVersion
  let helpUrl ← stringAt? entries "help_url" usual.helpUrl
  return { saveWithFsync, filePermissions, productName, productVersion, helpUrl }

/-- The settings in a file. Settings with problems are taken all the same, and logged. -/
def load (disk : Disk) (path : String) : Traced (Except Failure Settings) :=
  match (disk.read? path).bind Utf8.decode? with
  | none => pure (.error (.unreadable path))
  | some text =>
    match ofToml? text with
    | none => pure (.error (.malformed path))
    | some settings => do
      let problems := settings.problems
      if !problems.isEmpty then
        Traced.log .warn ("Settings validation warnings: " ++
          "; ".intercalate (problems.map Problem.text))
      pure (.ok settings)

end TypedConfig.Settings
