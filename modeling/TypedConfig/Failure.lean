import TypedConfig.Text.Numeral
import TypedConfig.Text.Quoted

/-!
# Failures

Why an operation was refused. A failure is a cause with its data; `Failure.message` is the one
place that puts causes into words. What the operating system says about a failed access is not
part of a cause: the messages hold `systemReason` in its place. A path with a NUL is refused before
the system sees it, and for this the messages have words of their own (`reasonFor`).
-/

namespace TypedConfig

/-- What a missing or doubled name was meant to name. -/
inductive Subject
  | file | section | option
  deriving Repr, DecidableEq

/-- The word for a subject. -/
def Subject.word : Subject → String
  | .file => "file"
  | .section => "section"
  | .option => "option"

/-- The causes of failure. -/
inductive Failure
  /-- A file cannot be opened or read. -/
  | unreadable (path : String)
  /-- A file cannot be made, filled or put in its place. -/
  | unwritable (path : String)
  /-- A file of engine settings is not in the form of one. -/
  | malformed (path : String)
  /-- The directory of the files cannot be made. -/
  | noDirectory (path : String)
  /-- A file cannot be copied aside. -/
  | noBackup (path : String)
  /-- A directory cannot be listed. -/
  | unlistable
  /-- A definition has faults, told by their joined texts. -/
  | invalid (text : String)
  /-- Nothing has this name. -/
  | notFound (subject : Subject) (name : String)
  /-- Something has this name already. -/
  | duplicate (subject : Subject) (name : String)
  /-- An option does not take this value. -/
  | invalidValue (option value : String)
  /-- A section neither has nor makes an option of this name. -/
  | unknownOption (sectionName option : String)
  /-- A file has a version above the one that is understood. -/
  | versionTooNew (path : String) (found supported : Nat)
  /-- A file names its version by a text that is none. -/
  | invalidVersion (path text : String)
  deriving Repr, DecidableEq

/-- The placeholder for the operating system's reason. -/
def systemReason : String := "<io>"

/-- Whether a path holds the character that ends paths for the operating system. -/
def holdsNul (path : String) : Bool :=
  path.contains '\x00'

/-- Why an access to a path failed. -/
def reasonFor (path : String) : String :=
  if holdsNul path then "file name contained an unexpected NUL byte" else systemReason

/-- Why a file cannot be made at a path. A refusal for a NUL names the path; `systemReason` stands
for all that the system says, the path included. -/
def reasonAt (path : String) : String :=
  if holdsNul path then reasonFor path ++ " at path " ++ Text.quoted path else systemReason

/-- A failure in words. -/
def Failure.message : Failure → String
  | unreadable path => "Failed to read config file at " ++ path ++ ": " ++ reasonFor path
  | unwritable path => "Failed to write config file at " ++ path ++ ": " ++ reasonAt path
  | malformed path => "Failed to parse settings file at " ++ path ++ ": " ++ systemReason
  | noDirectory path =>
    "Failed to create config directory at " ++ path ++ ": " ++ reasonFor path
  | noBackup path => "Failed to backup config file " ++ path ++ ": " ++ reasonFor path
  | unlistable => "I/O error: " ++ systemReason
  | invalid text => "Config validation failed: " ++ text
  | notFound subject name => subject.word ++ " not found: " ++ name
  | duplicate subject name => subject.word ++ " already exists: " ++ name
  | invalidValue option value => "Invalid value for option " ++ option ++ ": " ++ value
  | unknownOption sectionName option =>
    "Unknown option for section \"" ++ sectionName ++ "\": " ++ option
  | versionTooNew path found supported =>
    "Version read in " ++ path ++ " (" ++ Numeral.ofNat found ++
      ") is newer than supported version (" ++ Numeral.ofNat supported ++ ")"
  | invalidVersion path text => "Invalid config version in " ++ path ++ ": \"" ++ text ++ "\""

end TypedConfig
