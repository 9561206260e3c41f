import TypedConfig.Registry

/-!
# Inheritance

An option whose value is null takes the value of its parent, or the parent's default value; without
a parent it takes its own default value. The place where a parent was found is kept in the option,
and used again as long as an option of the parent's full name stands there; otherwise the parent is
looked up anew.
-/

namespace TypedConfig.Registry

/-- The place of the option at an address. -/
def locate? (r : Registry) (a : Address) : Option Location := do
  let file ← Roster.position? a.file r.documents
  let d ← r.documents[file]?
  let sectionName ← Roster.position? a.sectionName d.sections
  let s ← d.sections[sectionName]?
  let option ← Roster.position? a.option s.entries
  return ⟨file, sectionName, option⟩

/-- The option at a place. -/
def entryIn? (r : Registry) (l : Location) : Option Entry := do
  let d ← r.documents[l.file]?
  let s ← d.sections[l.sectionName]?
  s.entries[l.option]?

/-- The parent of an option, if the place where it was found the last time still holds it. -/
def knownParent? (r : Registry) (e : Entry) : Option Entry := do
  let path ← e.parent
  let location ← e.knownParent
  (r.entryIn? location).filter fun p => p.fullName = path

/-- The registry in which an option keeps a place for its parent. -/
def keepParent (r : Registry) (a : Address) (location : Option Location) : Registry :=
  (r.onSection a.file a.sectionName fun s => s.onBody fun b =>
    b.change a.option fun e => pure ({ e with knownParent := location }, ())).result.1

/-- The parent of the option at an address, whose place is kept if it had to be looked up. -/
def parentOf (r : Registry) (a : Address) : Traced (Registry × Option Entry) :=
  match r.entryAt? a with
  | none => pure (r, none)
  | some e =>
    match e.parent with
    | none => pure (r, none)
    | some path =>
      match r.knownParent? e with
      | some p => pure (r, some p)
      | none => do
        Traced.log .debug ("Resolving parent " ++ path ++ " of " ++ e.fullName)
        let location := (Address.ofPath? path).bind r.locate?
        pure (r.keepParent a location, location.bind r.entryIn?)

/-- The parent of an option by a look at its path alone. -/
def parentByPath? (r : Registry) (e : Entry) : Option Entry := do
  let path ← e.parent
  r.entry? path

/-- Where an option with a parent, if it has one, takes its value from: the option that owns the
value, and the value. -/
def source (e : Entry) (parent : Option Entry) : Entry × Option Value :=
  match e.value, parent with
  | some v, _ => (e, some v)
  | none, some p => (p, p.value.or p.default)
  | none, none => (e, e.default)

/-- The value of the option at an address with what it inherits, as a function of the option that
owns it and the value itself. Only a null value has its parent looked up. -/
def inherited {α : Type} (r : Registry) (a : Address) (f : Entry → Option Value → α) :
    Traced (Registry × Option α) :=
  match r.entryAt? a with
  | none => pure (r, none)
  | some e =>
    let answer (parent : Option Entry) :=
      let s := source e parent
      some (f s.1 s.2)
    if e.value.isSome then pure (r, answer none)
    else do
      let (r, parent) ← r.parentOf a
      pure (r, answer parent)

/-- The inherited value. -/
def inheritedValue (r : Registry) (a : Address) : Traced (Registry × Option (Option Value)) :=
  r.inherited a fun _ v => v

/-- The inherited value as a truth value. -/
def inheritedBoolean (r : Registry) (a : Address) : Traced (Registry × Option Bool) :=
  r.inherited a fun _ v => Cell.asBoolean v

/-- The inherited value as a number. -/
def inheritedInteger (r : Registry) (a : Address) : Traced (Registry × Option Int) :=
  r.inherited a fun _ v => Cell.asInteger v

/-- The inherited value as a text. -/
def inheritedString (r : Registry) (a : Address) : Traced (Registry × Option (Option String)) :=
  r.inherited a fun e v => e.asString v

/-- The inherited value as a color id. -/
def inheritedColor (r : Registry) (a : Address) : Traced (Registry × Option Int) :=
  r.inherited a fun _ v => Cell.asColor v

/-- The inherited value as a position. -/
def inheritedEnum (r : Registry) (a : Address) : Traced (Registry × Option Nat) :=
  r.inherited a fun _ v => Cell.asEnum v

end TypedConfig.Registry
