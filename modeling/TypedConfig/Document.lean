import TypedConfig.Disk.Access
import TypedConfig.Environment
import TypedConfig.Migration
import TypedConfig.Report
import TypedConfig.Section

/-!
# Configuration files

A document is a configuration file as the engine holds it: a roster of sections with a name, a
priority among the files and a version. How a document is read and written is in the modules below
`TypedConfig.Document`.
-/

namespace TypedConfig

/-- What a host does instead of the usual reload: a program over the functions of a document, which
may read it, reload it as usual, take in a text under the document's own path, write it, and change
its sections and its other parts. -/
inductive Reloading where
  /-- The end. -/
  | finish (result : Except Failure Report)
  /-- Goes on as the sections say. -/
  | look (next : List Section → Reloading)
  /-- Reads the file. -/
  | read (next : Except Failure Report → Reloading)
  /-- Reloads the file as usual. -/
  | reload (next : Except Failure Report → Reloading)
  /-- Writes the file, with default values where hooks give them. -/
  | save (defaults : Bool) (next : Except Failure Unit → Reloading)
  /-- Takes in bytes as if they were the file's. -/
  | parse (bytes : List UInt8) (next : Report → Reloading)
  /-- Sets the version. -/
  | setVersion (version : Nat) (next : Except Failure Unit → Reloading)
  /-- Sets the migration. -/
  | setMigration (migration : Migration) (next : Reloading)
  /-- Sets what is done instead of the usual reload from the next time on. -/
  | setReloading (reloading : Reloading) (next : Reloading)
  /-- Adds a section. -/
  | addSection (definition : SectionDefinition) (next : Except Failure Unit → Reloading)
  /-- Removes a section. -/
  | removeSection (sectionName : String) (next : Except Failure Unit → Reloading)
  /-- Runs a script in a section, if there is such a section. -/
  | edit (sectionName : String) (script : Script Unit)
      (next : Option (Except Failure Unit) → Reloading)
  /-- Has a section make an option for a user. -/
  | create (sectionName option : String) (value : Option String)
      (next : Option (Except Failure SetOutcome) → Reloading)
  /-- Has a section take an option's value away for a user. -/
  | unset (sectionName option : String)
      (next : Option (Except Failure UnsetOutcome) → Reloading)

/-- A configuration file. -/
structure Document where
  name : String
  priority : Int
  version : Nat := 1
  /-- The version in the text that was read last, from its start up to where reading is. -/
  versionRead : Nat := 1
  migration : Option Migration := none
  reloading : Option Reloading := none
  sections : List Section := []
  /-- What the file on disk looked like when it was read or written last. -/
  stamp : Option Stamp := none

instance : Named Document := ⟨fun d => d.name⟩

namespace Document

/-- The priority of a file that does not give one. -/
def usualPriority : Int := 1000

/-- The priority and the plain name in a name such as `10|irc`. A name with no numeral before its
first bar is plain as a whole. -/
def splitPriority (name : String) : Int × String :=
  match Text.cutString? "|" name with
  | some (number, rest) =>
    match Numeral.int32? number with
    | some priority => (priority, rest)
    | none => (usualPriority, name)
  | none => (usualPriority, name)

/-- The empty document of a name, which may give a priority, unless the plain name is blank. -/
def ofName? (name : String) : Except Failure Document := do
  let (priority, name) := splitPriority name
  Check.verify [Check.notEmpty name "file.name"]
  return { name, priority }

/-- A new document has no sections, and its plain name. -/
theorem eq_of_ofName? {name : String} {d : Document} (h : ofName? name = .ok d) :
    d = { name := (splitPriority name).2, priority := (splitPriority name).1 } := by
  simp only [ofName?, bind, Except.bind] at h
  split at h
  · contradiction
  · exact (Except.ok.inj h).symm

/-- The name of the file in its directory. -/
def fileName (d : Document) : String :=
  d.name ++ fileExtension

/-- The path of the file. -/
def path (d : Document) (env : Environment) : String :=
  Disk.join env.dir d.fileName

/-- The document with another version, which has to be a number of 32 bits and not zero. -/
def setVersion (d : Document) (version : Nat) : Document × Except Failure Unit :=
  match Check.verify
      [Check.inRange version 1 Numeral.word32Greatest (d.name ++ ".version")] with
  | .ok () => ({ d with version }, .ok ())
  | .error failure => (d, .error failure)

/-- The section of a name. -/
def section? (d : Document) (name : String) : Option Section :=
  Roster.find? name d.sections

/-- Adds the empty section of a definition. -/
def addSection (d : Document) (palette : Palette) (s : SectionDefinition) :
    Document × Except Failure Unit :=
  if (d.section? s.name).isSome then
    (d, .error (.duplicate .section (d.name ++ "." ++ s.name)))
  else match Section.ofDefinition? d.name palette s with
    | .error failure => (d, .error failure)
    | .ok s => ({ d with sections := Roster.insert s d.sections }, .ok ())

/-- Changes the section of a name by a function. -/
def onSection {α : Type} (d : Document) (name : String) (f : Section → Traced (Section × α)) :
    Traced (Document × Option α) :=
  match d.section? name with
  | none => pure (d, none)
  | some s => do
    let (s', a) ← f s
    pure ({ d with sections := Roster.replace name s' d.sections }, some a)

/-- Removes the section of a name after its options. -/
def removeSection (d : Document) (name : String) : Traced (Document × Except Failure Unit) :=
  match d.section? name with
  | none => pure (d, .error (.notFound .section (d.name ++ "." ++ name)))
  | some s => do
    let _ ← s.clear
    pure ({ d with sections := Roster.erase name d.sections }, .ok ())

/-- The events of removing options section by section. -/
def removalEvents (d : Document) : List Event :=
  d.sections.flatMap fun s => s.entries.flatMap Entry.removalEvents

/-- Removes all sections, in the order of their names, each after its options. -/
def clear (d : Document) : Traced Document := do
  Traced.tell d.removalEvents
  pure { d with sections := [] }

end Document

end TypedConfig
