import TypedConfig.Section.Draft

/-!
# Sections with hooks

A section may leave part of its work to hooks of the host: taking a line that is read, making an
option that is not there, removing one, and writing itself. Each call of a hook is an event. The
hooks that change the section are scripts over its body, and those that write give a draft.
-/

namespace TypedConfig

/-- The hooks of a section. -/
structure Hooks where
  /-- Takes each line read for the section, with the option's name and value. -/
  read : Option (String → Option String → Script SetOutcome) := none
  /-- Writes the section. -/
  write : Option (Body → Draft) := none
  /-- Writes the section with default values. -/
  writeDefaults : Option (Body → Draft) := none
  /-- Makes an option that is not there, from its name and value. -/
  create : Option (String → Option String → Script SetOutcome) := none
  /-- Removes a user's option. -/
  delete : Option (String → Script UnsetOutcome) := none

/-- A section of a file. -/
structure Section extends Body where
  hooks : Hooks

instance : Named Section := ⟨fun s => s.name⟩

/-- What a host says about a section. -/
structure SectionDefinition where
  name : String
  canAdd : Bool := false
  canDelete : Bool := false
  hooks : Hooks := {}

namespace Section

/-- The empty section that a definition makes in a file, unless its name is blank. -/
def ofDefinition? (file : String) (palette : Palette) (d : SectionDefinition) :
    Except Failure Section := do
  Check.verify [Check.notEmpty d.name (file ++ ".<section>")]
  return { file, name := d.name, canAdd := d.canAdd, canDelete := d.canDelete, palette,
           entries := [], hooks := d.hooks }

/-- A new section has no options, and all the rest is its definition's. -/
theorem eq_of_ofDefinition? {file : String} {palette : Palette} {d : SectionDefinition}
    {s : Section} (h : ofDefinition? file palette d = .ok s) :
    s = { file, name := d.name, canAdd := d.canAdd, canDelete := d.canDelete, palette,
          entries := [], hooks := d.hooks } := by
  simp only [ofDefinition?, bind, Except.bind] at h
  split at h
  · contradiction
  · exact (Except.ok.inj h).symm

/-- An operation on the body as one on the section. -/
def onBody {α : Type} (s : Section) (f : Body → Traced (Body × α)) : Traced (Section × α) := do
  let (body, a) ← f s.toBody
  pure ({ s with toBody := body }, a)

/-- A script as an operation on the section. -/
def runScript {α : Type} (s : Section) (script : Script α) : Traced (Section × Except Failure α) :=
  s.onBody script.run

/-- Calls the hook that makes options. -/
def callCreate (s : Section) (hook : String → Option String → Script SetOutcome) (name : String)
    (value : Option String) : Traced (Section × Except Failure SetOutcome) := do
  Traced.tell [.optionRequested s.name name value]
  s.runScript (hook name value)

/-- Makes an option for a user, through the hook and where users may add options. -/
def create (s : Section) (name : String) (value : Option String) :
    Traced (Section × Except Failure SetOutcome) :=
  match s.hooks.create, s.canAdd with
  | some hook, true => s.callCreate hook name value
  | _, _ => pure (s, .error (.unknownOption s.name name))

/-- Takes an option's own value away. Where users may remove options it goes, through the hook if
there is one, and elsewhere its value becomes the default value. -/
def unset (s : Section) (name : String) : Traced (Section × Except Failure UnsetOutcome) :=
  match s.entry? name with
  | none => pure (s, .error (.notFound .option (s.path name)))
  | some _ =>
    if s.canDelete then
      match s.hooks.delete with
      | some hook => do
        Traced.tell [.removalRequested s.name name]
        s.runScript (hook name)
      | none => do
        let (s, answer) ← s.onBody (·.remove name)
        pure (s, answer.map fun _ => .removed)
    else do
      let (s, answer) ← s.onBody (·.mutate name .reset)
      pure (s, match answer with
        | some (.ok .changed) => .ok .reset
        | some (.ok .sameValue) => .ok .noReset
        | some (.error failure) => .error failure
        | none => .error (.notFound .option name))

/-- Gives an option the value of a line. The read hook takes the line if there is one, else the
option of that name, which counts as reached even if it refuses the value, else the hook that makes
options. -/
def applyLine (s : Section) (name : String) (value : Option String) :
    Traced (Section × Except Failure SetOutcome) :=
  match s.hooks.read with
  | some hook => do
    Traced.tell [.lineRead s.name name value]
    s.runScript (hook name value)
  | none =>
    match s.entry? name with
    | some _ => do
      let (s, answer) ← s.onBody (·.change name fun e => do
        let (e, answer) ← e.set value
        pure ({ e with loaded := true }, answer))
      pure (s, answer.getD (.error (.unknownOption s.name name)))
    | none =>
      match s.hooks.create with
      | some hook => s.callCreate hook name value
      | none => pure (s, .error (.unknownOption s.name name))

end Section

end TypedConfig
