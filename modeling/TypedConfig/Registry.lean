import TypedConfig.Document.Load

/-!
# Registries

A registry is a roster of configuration files with what they share. Files come and go by name, and
options are reached by address. Which option another one inherits from is in
`TypedConfig.Registry.Parents`, and reading and writing of all files in
`TypedConfig.Registry.Bulk`.
-/

namespace TypedConfig

/-- All configuration files. -/
structure Registry where
  env : Environment
  documents : List Document := []

namespace Registry

/-- Replaces the settings by ones without problems. -/
def setSettings (r : Registry) (settings : Settings) : Registry × Except Failure Unit :=
  match Check.verify settings.checks with
  | .ok () => ({ r with env := { r.env with settings } }, .ok ())
  | .error failure => (r, .error failure)

/-- The file of a name. -/
def document? (r : Registry) (name : String) : Option Document :=
  Roster.find? name r.documents

/-- The section of a name in a file. -/
def section? (r : Registry) (file sectionName : String) : Option Section := do
  let d ← r.document? file
  d.section? sectionName

/-- The option at an address. -/
def entryAt? (r : Registry) (a : Address) : Option Entry := do
  let s ← r.section? a.file a.sectionName
  s.entry? a.option

/-- An option is found on the way through a file and a section. -/
theorem entryAt?_eq_some_iff {r : Registry} {a : Address} {e : Entry} :
    r.entryAt? a = some e ↔ ∃ d s, r.document? a.file = some d ∧
      d.section? a.sectionName = some s ∧ s.entry? a.option = some e := by
  simp only [entryAt?, section?, Option.bind_eq_bind, Option.bind_eq_some_iff]
  constructor
  · rintro ⟨s, ⟨d, hd, hs⟩, he⟩
    exact ⟨d, s, hd, hs, he⟩
  · rintro ⟨d, s, hd, hs, he⟩
    exact ⟨s, ⟨d, hd, hs⟩, he⟩

/-- The option at a path. -/
def entry? (r : Registry) (path : String) : Option Entry := do
  let a ← Address.ofPath? path
  r.entryAt? a

/-- Adds the empty file of a name, which may give a priority. -/
def addFile (r : Registry) (name : String) : Registry × Except Failure Unit :=
  let plain := (Document.splitPriority name).2
  if (r.document? plain).isSome then (r, .error (.duplicate .file plain))
  else match Document.ofName? name with
    | .error failure => (r, .error failure)
    | .ok d => ({ r with documents := Roster.insert d r.documents }, .ok ())

/-- Removes a file after its sections. -/
def removeFile (r : Registry) (name : String) : Traced (Registry × Except Failure Unit) :=
  match r.document? name with
  | none => pure (r, .error (.notFound .file name))
  | some d => do
    let _ ← d.clear
    Traced.log .debug ("Removed configuration file " ++ name)
    pure ({ r with documents := Roster.erase name r.documents }, .ok ())

/-- Removes all files, in the order of their names, each after its sections. -/
def clear (r : Registry) : Traced Registry := do
  Traced.tell (r.documents.flatMap Document.removalEvents)
  pure { r with documents := [] }

/-- Changes the file of a name by a function. -/
def onDocument {α : Type} (r : Registry) (name : String) (f : Document → Traced (Document × α)) :
    Traced (Registry × Option α) :=
  match r.document? name with
  | none => pure (r, none)
  | some d => do
    let (d', a) ← f d
    pure ({ r with documents := Roster.replace name d' r.documents }, some a)

/-- Changes a section of a file by a function. -/
def onSection {α : Type} (r : Registry) (file sectionName : String)
    (f : Section → Traced (Section × α)) : Traced (Registry × Option α) := do
  let (r, answer) ← r.onDocument file fun d => d.onSection sectionName f
  pure (r, answer.join)

/-- Changes the option at a path in one of the five ways, if it is there. -/
def mutate (r : Registry) (path : String) (m : Mutation) :
    Traced (Registry × Option (Except Failure SetOutcome)) :=
  match Address.ofPath? path with
  | none => pure (r, none)
  | some a => do
    let (r, answer) ← r.onSection a.file a.sectionName fun s => s.onBody (·.mutate a.option m)
    pure (r, answer.join)

/-- Sets the option at a path, or has its section make it. -/
def setOption (r : Registry) (path : String) (value : Option String) :
    Traced (Registry × Except Failure SetOutcome) :=
  match Address.ofPath? path with
  | none => pure (r, .error (.notFound .option path))
  | some a => do
    let (r, answer) ← r.onSection a.file a.sectionName fun s =>
      match s.entry? a.option with
      | some _ => do
        let (s, answer) ← s.onBody (·.mutate a.option (.set value))
        pure (s, answer.getD (.error (.notFound .option path)))
      | none => do
        let (s, answer) ← s.create a.option value
        pure (s, match answer with
          | .error (.unknownOption ..) => .error (.notFound .option path)
          | answer => answer)
    pure (r, answer.getD (.error (.notFound .section (a.file ++ "." ++ a.sectionName))))

/-- Takes the value of the option at a path away, or the option itself. -/
def unsetOption (r : Registry) (path : String) :
    Traced (Registry × Except Failure UnsetOutcome) :=
  match Address.ofPath? path with
  | none => pure (r, .error (.notFound .option path))
  | some a => do
    let (r, answer) ← r.onSection a.file a.sectionName fun s => s.unset a.option
    pure (r, answer.getD (.error (.notFound .option path)))

/-- The registry with each option changed by a function. -/
def mapEntries (r : Registry) (f : Entry → Entry) : Registry :=
  let inSection (s : Section) : Section := { s with entries := s.entries.map f }
  let inDocument (d : Document) : Document := { d with sections := d.sections.map inSection }
  { r with documents := r.documents.map inDocument }

/-- An option after another one was renamed: a parent of the old path is now one of the new path,
and no parent's place is known any more. -/
def redirect (old new : String) (e : Entry) : Entry :=
  if e.parent = some old then { e with parent := some new, knownParent := none }
  else { e with knownParent := none }

/-- The registry after the option at an address was renamed: those that inherit from it follow, and
its value is published under the new path. -/
def followRename (r : Registry) (a : Address) (newName : String) : Traced Registry := do
  let b : Address := { a with option := newName }
  let r := r.mapEntries (redirect a.path b.path)
  Traced.tell ((r.entryAt? b).map Entry.notification).toList
  Traced.log .debug ("Renamed option " ++ a.path ++ " to " ++ b.path)
  pure r

/-- Gives the option at a path another name in its section, and lets those that inherit from it
follow. The answer tells whether the name could be given. -/
def renameOption (r : Registry) (path newName : String) :
    Traced (Registry × Except Failure Bool) :=
  match (Address.ofPath? path).filter fun a => (r.entryAt? a).isSome with
  | none => pure (r, .error (.notFound .option path))
  | some a => do
    let (renamed, answer) ← r.onSection a.file a.sectionName fun s =>
      s.onBody fun b => pure (b.rename a.option newName)
    if answer = some true then
      let r ← renamed.followRename a newName
      pure (r, .ok true)
    else pure (r, .ok false)

end Registry

end TypedConfig
