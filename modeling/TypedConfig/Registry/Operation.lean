import TypedConfig.Registry.Bulk
import TypedConfig.Registry.Parents

/-!
# Runs of operations

What a host may ask of a registry and its disk, as data. `Operation.perform` does what is asked with
the functions of the library, and `Registry.run` does one thing after the other. The registries that
a host can bring about from an empty one are the `Registry.Reachable` ones. The disk belongs to all:
between two operations anything may happen to it (`Operation.exchangeDisk`).
-/

namespace TypedConfig

/-- What a host may ask. The answers are left out, since nothing in a registry depends on what
becomes of them. -/
inductive Operation where
  | setSettings (settings : Settings)
  | addFile (name : String)
  | removeFile (name : String)
  | removeFiles
  | setVersion (file : String) (version : Nat)
  | setMigration (file : String) (migration : Migration)
  | setReloading (file : String) (reloading : Reloading)
  | addSection (file : String) (definition : SectionDefinition)
  | removeSection (file sectionName : String)
  /-- Options of a section are added, removed and changed through the functions of the section. -/
  | edit (file sectionName : String) (script : Script Unit)
  /-- A section is asked for an option as a user would ask. -/
  | create (file sectionName option : String) (value : Option String)
  /-- A section is asked to drop an option's value as a user would ask. -/
  | unset (file sectionName option : String)
  | mutate (path : String) (mutation : Mutation)
  | setOption (path : String) (value : Option String)
  | unsetOption (path : String)
  | renameOption (path newName : String)
  /-- A text is taken in as one of the file, with a name for messages. -/
  | parse (file origin : String) (bytes : List UInt8)
  | read (file : String)
  /-- The usual reload, whether or not the host has put one of its own in its place. -/
  | reloadAsUsual (file : String)
  | reload (file : String)
  | save (file : String) (defaults : Bool)
  | readAll
  | reloadAll
  | reloadModified
  | writeAll
  /-- The parent of an option is looked up. -/
  | parentOf (address : Address)
  /-- An option's value is read with what it inherits; the six ways to read it look up alike. -/
  | inherited (address : Address)
  /-- Somebody else changes the disk. -/
  | exchangeDisk (disk : Disk)

namespace Operation

/-- An operation on the registry alone. -/
def onRegistry {α : Type} (disk : Disk) (x : Traced (Registry × α)) : Traced (Registry × Disk) := do
  let (r, _) ← x
  pure (r, disk)

/-- An operation on the registry and the disk. -/
def onBoth {α : Type} (x : Traced (OnDisk Registry α)) : Traced (Registry × Disk) := do
  let (r, disk, _) ← x
  pure (r, disk)

/-- Does what is asked. -/
def perform (r : Registry) (disk : Disk) : Operation → Traced (Registry × Disk)
  | setSettings settings => onRegistry disk (pure (r.setSettings settings))
  | addFile name => onRegistry disk (pure (r.addFile name))
  | removeFile name => onRegistry disk (r.removeFile name)
  | removeFiles => do
    let r ← r.clear
    pure (r, disk)
  | setVersion file version =>
    onRegistry disk (r.onDocument file fun d => pure (d.setVersion version))
  | setMigration file migration =>
    onRegistry disk (r.onDocument file fun d => pure ({ d with migration := some migration }, ()))
  | setReloading file reloading =>
    onRegistry disk (r.onDocument file fun d => pure ({ d with reloading := some reloading }, ()))
  | addSection file definition =>
    onRegistry disk (r.onDocument file fun d => pure (d.addSection r.env.palette definition))
  | removeSection file sectionName =>
    onRegistry disk (r.onDocument file fun d => d.removeSection sectionName)
  | edit file sectionName script =>
    onRegistry disk (r.onSection file sectionName fun s => s.runScript script)
  | create file sectionName option value =>
    onRegistry disk (r.onSection file sectionName fun s => s.create option value)
  | unset file sectionName option =>
    onRegistry disk (r.onSection file sectionName fun s => s.unset option)
  | mutate path mutation => onRegistry disk (r.mutate path mutation)
  | setOption path value => onRegistry disk (r.setOption path value)
  | unsetOption path => onRegistry disk (r.unsetOption path)
  | renameOption path newName => onRegistry disk (r.renameOption path newName)
  | parse file origin bytes => onBoth (r.withFile disk file fun d => do
      let (d, disk, report) ← d.parse disk origin bytes
      pure (d, disk, .ok report))
  | read file => onBoth (r.withFile disk file fun d => d.read r.env disk)
  | reloadAsUsual file => onBoth (r.withFile disk file fun d => d.reload r.env disk)
  | reload file => onBoth (r.reload disk file)
  | save file defaults => onBoth (r.withFile disk file fun d => d.save r.env disk defaults)
  | readAll => onBoth (r.readAll disk)
  | reloadAll => onBoth (r.reloadAll disk)
  | reloadModified => onBoth (r.reloadModified disk)
  | writeAll => onBoth (r.writeAll disk)
  | parentOf address => onRegistry disk (r.parentOf address)
  | inherited address => onRegistry disk (r.inheritedValue address)
  | exchangeDisk disk => pure (r, disk)

end Operation

namespace Registry

/-- Does one thing after the other. -/
def run : List Operation → Registry → Disk → Traced (Registry × Disk)
  | [], r, disk => pure (r, disk)
  | op :: ops, r, disk => do
    let (r, disk) ← op.perform r disk
    run ops r disk

/-- A run of operations from a registry without files leads to this one. -/
def Reachable (r : Registry) : Prop :=
  ∃ env ops disk, (run ops { env } disk).result.1 = r

end Registry

end TypedConfig
