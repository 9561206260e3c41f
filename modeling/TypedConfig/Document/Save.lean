import TypedConfig.Document.Text
import TypedConfig.Text.Utf8

/-!
# Writing files

A file is prepared under its temporary path and then moved over the old one, so that at each moment
the path leads to the old content or to the new, complete one. Where the path is a link, what it
leads to is replaced and the link stays. After a failure at any step the temporary file is gone and
the old content is there.
-/

namespace TypedConfig

namespace Document

/-- Removes a temporary file that was left over. -/
def removeStale (disk : Disk) (temporary : String) : Traced (Option Disk) :=
  if disk.isThere temporary then do
    Traced.log .warn ("Removing stale temp file " ++ temporary)
    pure (disk.remove temporary)
  else pure (some disk)

/-- Makes the empty temporary file. -/
def makeTemporary (disk : Disk) (temporary : String) : Traced (Disk × Except Failure Unit) :=
  match disk.create temporary 384 with
  | some disk => pure (disk, .ok ())
  | none => do
    Traced.complain ("Cannot create file \"" ++ temporary ++ "\"")
    pure (disk, .error (.unwritable temporary))

/-- Makes the empty temporary file in the place of one that was left over. -/
def prepare (disk : Disk) (temporary : String) : Traced (Disk × Except Failure Unit) := do
  match ← removeStale disk temporary with
  | some disk => makeTemporary disk temporary
  | none => pure (disk, .error (.unwritable temporary))

/-- The disk without the temporary file. -/
def discard (disk : Disk) (temporary : String) : Disk :=
  (disk.remove temporary).getD disk

/-- Fills the temporary file and moves it over the target. A temporary file that gets no further is
removed. -/
def complete (d : Document) (settings : Settings) (disk : Disk) (temporary target : String)
    (defaults : Bool) : Traced (Disk × Except Failure Unit) := do
  match ← d.draft settings defaults with
  | .error failure => pure (discard disk temporary, .error failure)
  | .ok text =>
    match disk.fill temporary (Utf8.encode text.toList) settings.mode with
    | none => pure (discard disk temporary, .error (.unwritable temporary))
    | some disk =>
      match disk.rename temporary target with
      | none => pure (discard disk temporary, .error (.unwritable target))
      | some disk => pure (disk, .ok ())

/-- Prepares and completes the file. -/
def replaceTarget (d : Document) (settings : Settings) (disk : Disk) (temporary target : String)
    (defaults : Bool) : Traced (Disk × Except Failure Unit) := do
  match ← prepare disk temporary with
  | (disk, .error failure) => pure (disk, .error failure)
  | (disk, .ok ()) => d.complete settings disk temporary target defaults

/-- Makes the directory of the files, if it is missing. -/
def ensureDirectory (env : Environment) (disk : Disk) : Traced (Disk × Except Failure Unit) :=
  if disk.isThere env.dir then pure (disk, .ok ())
  else match disk.makeDirectories env.dir with
    | (disk, false) => pure (disk, .error (.noDirectory env.dir))
    | (disk, true) => do
      Traced.log .info ("Created config directory: " ++ env.dir)
      pure (disk, .ok ())

/-- Notes what the file on disk looks like. -/
def recordStamp (d : Document) (env : Environment) (disk : Disk) : Document :=
  { d with stamp := disk.stamp? (d.path env) }

/-- Writes the file, with default values where hooks give them. -/
def save (d : Document) (env : Environment) (disk : Disk) (defaults : Bool) :
    Traced (OnDisk Document (Except Failure Unit)) := do
  match ← ensureDirectory env disk with
  | (disk, .error failure) => pure (d, disk, .error failure)
  | (disk, .ok ()) =>
    let path := d.path env
    Traced.log .info ("Writing configuration file " ++ d.fileName ++
      if defaults then " (default options)" else "")
    match ← d.replaceTarget env.settings disk (temporaryPath path) (disk.target path) defaults with
    | (disk, .error failure) =>
      Traced.complain ("Error writing configuration file \"" ++ path ++ "\"")
      Traced.log .error
        ("Error writing configuration file \"" ++ d.fileName ++ "\": " ++ failure.message)
      pure (d, disk, .error failure)
    | (disk, .ok ()) => pure (d.recordStamp env disk, disk, .ok ())

end Document

end TypedConfig
