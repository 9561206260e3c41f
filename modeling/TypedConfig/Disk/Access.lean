import TypedConfig.Disk.Path

/-!
# Access to files

What the engine does along paths. A file is opened for reading or writing only if its mode lets its
owner do so; each directory lets its owner do anything, but for the top, which belongs to others.
An access that fails gives none and changes nothing, with the exception of `makeDirectories`, which
leaves the directories that it has made.
-/

namespace TypedConfig.Disk

/-- Whether things may be made and removed at a place. -/
def mayChange (p : Place) : Bool :=
  2 ≤ p.length

/-- The top stays what it is. -/
theorem ne_top_of_mayChange {p : Place} (h : mayChange p = true) : p ≠ [] := by
  rintro rfl
  exact absurd h (by decide)

/-- Whether a mode lets the owner of a file read it. -/
def isReadable (mode : Nat) : Bool :=
  mode / 0o400 % 2 == 1

/-- Whether a mode lets the owner of a file write it. -/
def isWritable (mode : Nat) : Bool :=
  mode / 0o200 % 2 == 1

/-- What a path leads to, if that can be opened for reading; a directory always can. -/
def open? (d : Disk) (path : String) : Option Node :=
  (d.stat? path).filter fun
    | .file _ mode _ => isReadable mode
    | _ => true

/-- The bytes of the file that a path leads to. -/
def read? (d : Disk) (path : String) : Option (List UInt8) :=
  match d.open? path with
  | some (.file content ..) => some content
  | _ => none

/-- The stamp of what a path leads to. -/
def stamp? (d : Disk) (path : String) : Option Stamp :=
  match d.stat? path with
  | some (.file content _ modified) => some (.file modified content.length)
  | some .directory => some .directory
  | _ => none

/-- The names in a directory. -/
def list? (d : Disk) (path : String) : Option (List String) := do
  let p ← d.resolve? path
  if d.isDirectoryAt p then
    some (d.nodes.filterMap fun (q, _) => if q.dropLast = p then q.getLast? else none)
  else none

/-- Whether names lead to a directory. -/
def leadsToDirectory (d : Disk) (ns : List String) : Bool :=
  match d.follow linkLimit ns with
  | .ok p => d.isDirectoryAt p
  | .error _ => false

/-- Makes the directory at the end of names, if it is missing. -/
def makeDirectory (d : Disk) (ns : List String) : Except Fault Disk := do
  let p ← d.place ns
  if (d.node? p).isNone ∧ mayChange p then .ok (d.put p .directory)
  else if d.leadsToDirectory ns then .ok d
  else .error .barred

/-- Makes the directory at the end of names, after the one above it if that is missing. The names
of the one above are given backwards. The answer tells whether the directory is there at the end;
those above it remain in any case. -/
def makeBelow (d : Disk) (ns above : List String) : Disk × Bool :=
  match d.makeDirectory ns with
  | .ok d => (d, true)
  | .error .barred => (d, false)
  | .error .missing =>
    match above with
    | [] => (d, false)
    | name :: above =>
      match makeBelow d (name :: above).reverse above with
      | (d, false) => (d, false)
      | (d, true) =>
        match d.makeDirectory ns with
        | .ok d => (d, true)
        | .error _ => (d, false)

/-- Makes a directory and those above it, as far as they are missing. -/
def makeDirectories (d : Disk) (path : String) : Disk × Bool :=
  let parts := partsOf path
  if isPath path then d.makeBelow parts ((parts.filter (· ≠ ".")).reverse.drop 1) else (d, false)

/-- Removes a file or a link. -/
def remove (d : Disk) (path : String) : Option Disk := do
  let p ← d.entry? path
  match d.node? p with
  | some (.file ..) | some (.link _) => if mayChange p then some (d.drop p) else none
  | _ => none

/-- How many modes there are: a file has twelve permission bits. -/
def modeCount : Nat := 0o10000

/-- Writes a file at a place, with the time of a new tick. Only the permission bits of the mode
count. -/
def writeAt (d : Disk) (p : Place) (content : List UInt8) (mode : Nat) : Disk :=
  { d with ticks := d.ticks + 1 }.put p
    (.file content (mode % modeCount) (.tick (d.ticks + 1)))

/-- The file that was written stands at its place, and the other places are as they were. -/
theorem node?_writeAt {d : Disk} {p : Place} (hp : p ≠ []) (content : List UInt8) (mode : Nat)
    (q : Place) :
    (d.writeAt p content mode).node? q =
      if q = p then some (.file content (mode % modeCount) (.tick (d.ticks + 1)))
      else d.node? q := by
  unfold writeAt
  rw [node?_put hp]
  rfl

/-- Makes an empty file where nothing stands. -/
def create (d : Disk) (path : String) (mode : Nat) : Option Disk := do
  let p ← d.entry? path
  if (d.node? p).isNone ∧ mayChange p then some (d.writeAt p [] mode) else none

/-- Fills a file that is there, if the disk has room. -/
def fill (d : Disk) (path : String) (content : List UInt8) (mode : Nat) : Option Disk := do
  let p ← d.entry? path
  match d.node? p with
  | some (.file ..) => if d.isFull then none else some (d.writeAt p content mode)
  | _ => none

/-- Moves a file over what stands at another path, unless that is a directory. -/
def rename (d : Disk) (old new : String) : Option Disk := do
  let p ← d.entry? old
  let n ← d.node? p
  let q ← d.entry? new
  if d.isDirectoryAt q ∨ !mayChange p ∨ !mayChange q then none
  else if p = q then some d
  else some ((d.drop p).put q n)

/-- The place of the file that a path leads to, or where it leads to a free place, if the file can
be opened or made for writing. -/
def writable? (d : Disk) (path : String) : Option Place := do
  let p ← d.resolve? path
  match d.node? p with
  | none => if mayChange p then some p else none
  | some (.file _ mode _) => if isWritable mode then some p else none
  | some _ => none

/-- The mode of a file once content was put into it under that mode. A file that runs with the
rights of its owner loses this right then, and one that its group may run and that runs with the
group's rights loses that. -/
def modeOfCopy (content : List UInt8) (mode : Nat) : Nat :=
  if content.isEmpty then mode
  else if mode / 0o10 % 2 = 1 then mode % 0o2000
  else mode % 0o4000

/-- Copies a file with its permissions to a path that leads to nothing or to another file. -/
def copy (d : Disk) (old new : String) : Option Disk := do
  let n ← d.open? old
  let q ← d.writable? new
  match n with
  | .file content mode _ =>
    if d.isFull then none else some (d.writeAt q content (modeOfCopy content mode))
  | _ => none

end TypedConfig.Disk
