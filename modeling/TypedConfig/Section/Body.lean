import TypedConfig.Entry.Mutation

/-!
# Sections and their options

A section's body is a roster of options with the names of its owners and the two permissions of
users. Options come and go through the functions of this module, and each of them publishes what it
does. `Script` is a program over these functions: it is what a section's hooks may do, so whatever
holds of every function holds of every hook.
-/

namespace TypedConfig

/-- A section without its hooks. -/
structure Body where
  file : String
  name : String
  /-- Whether users may add options. -/
  canAdd : Bool
  /-- Whether users may remove options. -/
  canDelete : Bool
  /-- The colors that the section's options may take. -/
  palette : Palette
  entries : List Entry

namespace Body

/-- The full name of an option of the section, whether it is there or not. -/
def path (b : Body) (option : String) : String :=
  Address.path ⟨b.file, b.name, option⟩

/-- The option of a name. -/
def entry? (b : Body) (name : String) : Option Entry :=
  Roster.find? name b.entries

/-- Adds the option of a definition and publishes its value. -/
def define (b : Body) (d : Definition) : Traced (Body × Except Failure Entry) :=
  if (b.entry? d.plainName).isSome then
    pure (b, .error (.duplicate .option (b.path d.plainName)))
  else match Entry.ofDefinition? b.file b.name b.palette d with
    | .error failure => pure (b, .error failure)
    | .ok e => do
      Traced.tell [e.notification]
      pure ({ b with entries := Roster.insert e b.entries }, .ok e)

/-- Removes the option of a name; its owner is told, then null is published. -/
def remove (b : Body) (name : String) : Traced (Body × Except Failure Unit) :=
  match b.entry? name with
  | none => pure (b, .error (.notFound .option (b.path name)))
  | some e => do
    Traced.tell e.removalEvents
    Traced.log .debug ("Removed option " ++ e.fullName)
    pure ({ b with entries := Roster.erase name b.entries }, .ok ())

/-- Removes all options, in the order of their names. -/
def clear (b : Body) : Traced Body := do
  Traced.tell (b.entries.flatMap Entry.removalEvents)
  pure { b with entries := [] }

/-- Changes the option of a name by a function. -/
def change {α : Type} (b : Body) (name : String) (f : Entry → Traced (Entry × α)) :
    Traced (Body × Option α) :=
  match b.entry? name with
  | none => pure (b, none)
  | some e => do
    let (e', a) ← f e
    pure ({ b with entries := Roster.replace name e' b.entries }, some a)

/-- Changes the option of a name in one of the five ways. -/
def mutate (b : Body) (name : String) (m : Mutation) :
    Traced (Body × Option (Except Failure SetOutcome)) :=
  b.change name fun e => e.mutate m

/-- Gives the option of a name another one, if that is not empty and not taken. The answer tells
whether it happened. -/
def rename (b : Body) (name newName : String) : Body × Bool :=
  if newName = "" ∨ (b.entry? newName).isSome then (b, false)
  else match b.entry? name with
    | none => (b, false)
    | some e =>
      let entries := Roster.insert { e with name := newName } (Roster.erase name b.entries)
      ({ b with entries }, true)

end Body

/-- A program over a section's body that ends with a result or a failure. -/
inductive Script (α : Type) where
  /-- The end. -/
  | finish (result : Except Failure α)
  /-- Goes on as the section's state says. -/
  | look (next : Body → Script α)
  /-- Adds an option. -/
  | define (d : Definition) (next : Except Failure Entry → Script α)
  /-- Removes an option. -/
  | remove (name : String) (next : Except Failure Unit → Script α)
  /-- Removes all options. -/
  | clear (next : Script α)
  /-- Changes an option, if it is there. -/
  | mutate (name : String) (m : Mutation) (next : Option (Except Failure SetOutcome) → Script α)

/-- Runs a script. -/
def Script.run {α : Type} : Script α → Body → Traced (Body × Except Failure α)
  | .finish result, b => pure (b, result)
  | .look next, b => (next b).run b
  | .define d next, b => do
    let (b, answer) ← b.define d
    (next answer).run b
  | .remove name next, b => do
    let (b, answer) ← b.remove name
    (next answer).run b
  | .clear next, b => do
    let b ← b.clear
    next.run b
  | .mutate name m next, b => do
    let (b, answer) ← b.mutate name m
    (next answer).run b

end TypedConfig
