import TypedConfig.Backup
import TypedConfig.Document.Parse
import TypedConfig.Document.Save

/-!
# Reading and reloading files

`Document.read` takes in the file from the disk, which it makes first where it is missing.
`Document.reload` reads and then resets each option that no line has reached; the options of
sections with a read hook are left to that hook. A host may put a program of its own in the place
of the reload (`Reloading`).
-/

namespace TypedConfig

namespace Document

/-- Takes bytes in, and copies the file at their origin aside if they are rejected. -/
def parse (d : Document) (disk : Disk) (origin : String) (bytes : List UInt8) :
    Traced (OnDisk Document Report) := do
  let t ← d.takeIn origin bytes
  if t.rejected.isSome then
    let (disk, copy) ← Backup.make disk origin
    pure (t.document, disk, { t.report with backup := copy.toOption })
  else pure (t.document, disk, t.report)

/-- Makes the file with default values where it is missing, and tells whether that happened. -/
def bootstrap (d : Document) (env : Environment) (disk : Disk) : Traced (OnDisk Document Bool) := do
  let path := d.path env
  if disk.isThere path then pure (d, disk, false)
  else
    match ← d.save env disk true with
    | (d, disk, .ok ()) => pure (d, disk, true)
    | (d, disk, .error failure) =>
      Traced.log .warn ("Could not create " ++ path ++ ": " ++ failure.message)
      pure (d, disk, false)

/-- Reads the file, which is made first where it is missing. A directory in its place can be opened
but not read. -/
def load (d : Document) (env : Environment) (disk : Disk) (reloading : Bool) :
    Traced (OnDisk Document (Except Failure Report)) := do
  let path := d.path env
  let (d, disk, bootstrapped) ← d.bootstrap env disk
  match disk.open? path with
  | some (.file content ..) =>
    if !reloading then Traced.log .info ("Reading configuration file " ++ d.fileName)
    let (d, disk, report) ← d.parse disk path content
    pure (d.recordStamp env disk, disk, .ok { report with bootstrapped })
  | some _ =>
    if !reloading then Traced.log .info ("Reading configuration file " ++ d.fileName)
    pure ({ d with versionRead := 1 }, disk, .error (.unreadable path))
  | none =>
    Traced.warn ("WARNING: failed to read configuration file \"" ++ path ++ "\" (" ++
      reasonFor path ++ ")")
    Traced.warn ("WARNING: file \"" ++ path ++ "\" will be overwritten on exit with default " ++
      "values (it is HIGHLY recommended to backup this file now)")
    pure (d, disk, .error (.unreadable path))

/-- Reads the file. -/
def read (d : Document) (env : Environment) (disk : Disk) :
    Traced (OnDisk Document (Except Failure Report)) :=
  d.load env disk false

end Document

/-- Marks the options of a section as not reached, unless it has a read hook. -/
def Section.unmark (s : Section) : Section :=
  if s.hooks.read.isSome then s
  else { s with entries := s.entries.map fun e => { e with loaded := false } }

/-- Resets an option that was not reached. -/
def Entry.resetMissing (e : Entry) : Traced Entry :=
  if e.loaded then pure e
  else do
    let (e', answer) ← e.reset
    match answer with
    | .ok _ => pure e'
    | .error failure => do
      Traced.log .warn ("Could not reset " ++ e.fullName ++ ": " ++ failure.message)
      pure e'

/-- Resets the options of a section that were not reached, unless it has a read hook. -/
def Section.resetMissing (s : Section) : Traced Section :=
  if s.hooks.read.isSome then pure s
  else do
    let entries ← Traced.each Entry.resetMissing s.entries
    pure { s with entries }

namespace Document

/-- Marks the options as not reached. -/
def markMissing (d : Document) : Document :=
  { d with sections := d.sections.map Section.unmark }

/-- Resets the options that were not reached. -/
def resetMissing (d : Document) : Traced Document := do
  let sections ← Traced.each Section.resetMissing d.sections
  pure { d with sections }

/-- Reloads the file: reads it and resets the options that no line has reached, whether the reading
succeeded or not. -/
def reload (d : Document) (env : Environment) (disk : Disk) :
    Traced (OnDisk Document (Except Failure Report)) := do
  Traced.log .info ("Reloading configuration file " ++ d.fileName)
  let (d, disk, answer) ← d.markMissing.load env disk true
  let d ← d.resetMissing
  pure (d, disk, answer)

end Document

/-- Runs a host's reload. -/
def Reloading.run (env : Environment) :
    Reloading → Document → Disk → Traced (OnDisk Document (Except Failure Report))
  | .finish result, d, disk => pure (d, disk, result)
  | .look next, d, disk => (next d.sections).run env d disk
  | .read next, d, disk => do
    let (d, disk, answer) ← d.read env disk
    (next answer).run env d disk
  | .reload next, d, disk => do
    let (d, disk, answer) ← d.reload env disk
    (next answer).run env d disk
  | .save defaults next, d, disk => do
    let (d, disk, answer) ← d.save env disk defaults
    (next answer).run env d disk
  | .parse bytes next, d, disk => do
    let (d, disk, report) ← d.parse disk (d.path env) bytes
    (next report).run env d disk
  | .setVersion version next, d, disk =>
    let (d, answer) := d.setVersion version
    (next answer).run env d disk
  | .setMigration migration next, d, disk =>
    next.run env { d with migration := some migration } disk
  | .setReloading reloading next, d, disk =>
    next.run env { d with reloading := some reloading } disk
  | .addSection definition next, d, disk =>
    let (d, answer) := d.addSection env.palette definition
    (next answer).run env d disk
  | .removeSection name next, d, disk => do
    let (d, answer) ← d.removeSection name
    (next answer).run env d disk
  | .edit name script next, d, disk => do
    let (d, answer) ← d.onSection name fun s => s.runScript script
    (next answer).run env d disk
  | .create name option value next, d, disk => do
    let (d, answer) ← d.onSection name fun s => s.create option value
    (next answer).run env d disk
  | .unset name option next, d, disk => do
    let (d, answer) ← d.onSection name fun s => s.unset option
    (next answer).run env d disk

/-- Reloads the file in the host's way if there is one, and else as usual. -/
def Document.renew (d : Document) (env : Environment) (disk : Disk) :
    Traced (OnDisk Document (Except Failure Report)) :=
  match d.reloading with
  | some reloading => do
    Traced.tell [.reloadRequested d.name]
    reloading.run env d disk
  | none => d.reload env disk

/-- Whether the file on disk looks different from when it was read or written last. -/
def Document.isModified (d : Document) (env : Environment) (disk : Disk) : Bool :=
  disk.stamp? (d.path env) != d.stamp

end TypedConfig
