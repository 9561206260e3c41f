import TypedConfig.Check

/-!
# Settings of the engine

How files are written: with which permissions, and which product their first lines name.
-/

namespace TypedConfig

/-- The settings of the engine. -/
structure Settings where
  /-- Whether a file's bytes are forced to the disk before it takes its place. -/
  saveWithFsync : Bool := false
  /-- The permissions of written files, in octal. -/
  filePermissions : String := "600"
  productName : String := "WeeChat"
  productVersion : String := "0.1.0"
  helpUrl : String := "https://weechat.org/doc/weechat/quickstart/"
  deriving Repr, DecidableEq, Inhabited

namespace Settings

/-- The checks that settings have to pass. -/
def checks (s : Settings) : List (Option Problem) :=
  [Check.octalMode s.filePermissions "settings.file_permissions",
    Check.notEmpty s.productName "settings.product_name"]

/-- What is wrong with the settings. -/
def problems (s : Settings) : List Problem :=
  s.checks.filterMap id

/-- The permissions as a number; a text that is none means that the owner may read and write. -/
def mode (s : Settings) : Nat :=
  (Check.octal? s.filePermissions).getD 384

/-- The product with its version, if that is given. -/
def label (s : Settings) : String :=
  if s.productVersion = "" then s.productName else s.productName ++ " " ++ s.productVersion

end Settings

end TypedConfig
