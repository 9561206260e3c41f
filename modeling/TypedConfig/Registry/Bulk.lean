import TypedConfig.Registry

/-!
# Reading and writing all files

Files are read and reloaded in descending priority, those of equal priority by name, and written by
name. Each file gives its own result, and no failure keeps another file from its turn.
-/

namespace TypedConfig.Registry

/-- The files in descending priority, those of equal priority by name. -/
def byPriority (r : Registry) : List Document :=
  r.documents.mergeSort fun a b => b.priority ≤ a.priority

/-- Does something with the file of a name. -/
def withFile {α : Type} (r : Registry) (disk : Disk) (name : String)
    (f : Document → Traced (OnDisk Document (Except Failure α))) :
    Traced (OnDisk Registry (Except Failure α)) :=
  match r.document? name with
  | none => pure (r, disk, .error (.notFound .file name))
  | some d => do
    let (d', disk, answer) ← f d
    pure ({ r with documents := Roster.replace name d' r.documents }, disk, answer)

/-- Does something with the files of some names, one after the other. -/
def eachFile {α : Type}
    (f : Registry → Disk → String → Traced (OnDisk Registry (Except Failure α))) :
    Registry → Disk → List String → Traced (OnDisk Registry (List (String × Except Failure α)))
  | r, disk, [] => pure (r, disk, [])
  | r, disk, name :: names => do
    let (r, disk, answer) ← f r disk name
    let (r, disk, answers) ← eachFile f r disk names
    pure (r, disk, (name, answer) :: answers)

/-- Reads all files. -/
def readAll (r : Registry) (disk : Disk) :
    Traced (OnDisk Registry (List (String × Except Failure Report))) :=
  eachFile (fun r disk name => r.withFile disk name fun d => d.read r.env disk) r disk
    (Roster.names r.byPriority)

/-- Reloads a file, in the host's way if there is one. -/
def reload (r : Registry) (disk : Disk) (name : String) :
    Traced (OnDisk Registry (Except Failure Report)) :=
  r.withFile disk name fun d => d.renew r.env disk

/-- Reloads files one after the other, and logs each failure. -/
def reloadEach (r : Registry) (disk : Disk) (names : List String) :
    Traced (OnDisk Registry (List (String × Except Failure Report))) :=
  eachFile (fun r disk name => do
    let (r, disk, answer) ← r.reload disk name
    match answer with
    | .ok _ => pure ()
    | .error failure =>
      Traced.log .error ("Failed to reload " ++ name ++ ": " ++ failure.message)
    pure (r, disk, answer)) r disk names

/-- Reloads all files. -/
def reloadAll (r : Registry) (disk : Disk) :
    Traced (OnDisk Registry (List (String × Except Failure Report))) :=
  r.reloadEach disk (Roster.names r.byPriority)

/-- Reloads the files that look different on disk from when they were read or written last. -/
def reloadModified (r : Registry) (disk : Disk) :
    Traced (OnDisk Registry (List (String × Except Failure Report))) := do
  let names := Roster.names (r.byPriority.filter fun d => d.isModified r.env disk)
  if !names.isEmpty then
    Traced.log .info ("Configuration files changed on disk: " ++ ", ".intercalate names)
  r.reloadEach disk names

/-- Writes a file. -/
def write (r : Registry) (disk : Disk) (name : String) :
    Traced (OnDisk Registry (Except Failure Unit)) :=
  r.withFile disk name fun d => d.save r.env disk false

/-- The first failure among answers. -/
def firstFailure {α : Type} (answers : List (String × Except Failure α)) : Except Failure Unit :=
  answers.foldr (fun answer rest => match answer.2 with
    | .error failure => .error failure
    | .ok _ => rest) (.ok ())

/-- Writes all files, by name, and fails with the first failure. -/
def writeAll (r : Registry) (disk : Disk) : Traced (OnDisk Registry (Except Failure Unit)) := do
  let (r, disk, answers) ←
    eachFile (fun r disk name => r.write disk name) r disk (Roster.names r.documents)
  pure (r, disk, firstFailure answers)

end TypedConfig.Registry
