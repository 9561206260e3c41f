import TypedConfig.Document

/-!
# The text of a file

A file starts with a comment about the product, names its version if that is above one, and goes on
with its sections in the order of their names. A section's hook may write it instead.
-/

namespace TypedConfig

/-- The comment at the start of a file. -/
def Settings.headerText (s : Settings) (fileName : String) : String :=
  "#\n# " ++ s.label ++ " -- " ++ fileName ++ "\n#\n" ++
  "# WARNING: It is NOT recommended to edit this file by hand,\n" ++
  "# especially if " ++ s.productName ++ " is running.\n#\n" ++
  "# Use commands like /set or /fset to change settings in " ++ s.productName ++ ".\n#\n" ++
  "# For more info, see: " ++ s.helpUrl ++ "\n#\n"

/-- The text of a section: from the hook for defaults where defaults are asked for, else from the
write hook, else its options with their current values. -/
def Section.draft (s : Section) (defaults : Bool) : Traced Draft :=
  match if defaults then s.hooks.writeDefaults else none, s.hooks.write with
  | some hook, _ => do
    Traced.tell [.defaultsWritten s.name]
    pure (hook s.toBody)
  | none, some hook => do
    Traced.tell [.sectionWritten s.name]
    pure (hook s.toBody)
  | none, none => pure (.ok s.text)

/-- The texts of sections, up to the first that has none. -/
def Section.drafts (defaults : Bool) : List Section → Traced Draft
  | [] => pure (.ok "")
  | s :: ss => do
    match ← s.draft defaults with
    | .error failure => pure (.error failure)
    | .ok text =>
      let rest ← drafts defaults ss
      pure (rest.map (text ++ ·))

namespace Document

/-- The line of the version, which version one goes without. -/
def versionText (d : Document) : String :=
  if 1 < d.version then
    "\n" ++ Line.versionName ++ " = " ++ Numeral.ofNat d.version ++ "\n"
  else ""

/-- The text of the file. -/
def draft (d : Document) (settings : Settings) (defaults : Bool) : Traced Draft := do
  let sections ← Section.drafts defaults d.sections
  pure (sections.map fun text => settings.headerText d.fileName ++ d.versionText ++ text)

end Document

end TypedConfig
