import TypedConfig.Disk.Access
import TypedConfig.Event
import TypedConfig.Failure
import TypedConfig.Text.Numeral

/-!
# Backups

A file is copied aside under its own path, the word `backup` and the local time. Where that path is
taken, the numbers from 2 up are tried after it until one is free, so no copy overwrites another.
`list` gives the copies of a file, the newest first.
-/

namespace TypedConfig.Backup

/-- What stands between a file's name and the time of a backup. -/
def mark : String := ".backup."

/-- The path of a copy with a number. -/
def numbered (base : String) (index : Nat) : String :=
  base ++ "." ++ Numeral.ofNat index

/-- The first free path among those with this number and the greater ones, in as many attempts as
there can be taken ones. -/
def firstFree (d : Disk) (base : String) : Nat → Nat → String
  | 0, index => numbered base index
  | attempts + 1, index =>
    if d.isThere (numbered base index) then firstFree d base attempts (index + 1)
    else numbered base index

/-- The free path for a backup of a file. -/
def freePath (d : Disk) (path : String) : String :=
  let base := path ++ mark ++ d.now
  if d.isThere base then firstFree d base d.nodes.length 2 else base

/-- Copies a file aside and tells the user. The result is the path of the copy. -/
def make (d : Disk) (path : String) : Traced (Disk × Except Failure String) := do
  let target := freePath d path
  match d.copy path target with
  | some d' => do
    Traced.warn ("File " ++ path ++ " has been backed up as " ++ target)
    Traced.log .info ("Backed up " ++ path ++ " as " ++ target)
    pure (d', .ok target)
  | none => do
    Traced.complain ("Error: unable to backup file " ++ path)
    pure (d, .error (.noBackup path))

/-- A copy in a directory. -/
structure Info where
  name : String
  path : String
  modified : Moment
  size : Nat
  deriving Repr, DecidableEq

/-- The date and time in a copy's name, and its number, where a name without one counts as one. -/
def rank (name : String) : String × Nat :=
  let stamp := String.ofList (Text.afterLast mark.toList name.toList)
  let fields := Text.splitString '.' stamp
  let field (i : Nat) := (fields[i]?).getD ""
  let number := (fields[2]?).bind fun n =>
    Numeral.natural? 10 Numeral.word32Greatest n.toList
  (field 0 ++ field 1, number.getD 1)

/-- Whether a copy comes before another or level with it: a later modification first, then a later
stamp, then a greater number. -/
def precedes (a b : Info) : Bool :=
  if a.modified = b.modified then
    let ra := rank a.name
    let rb := rank b.name
    if ra.1 = rb.1 then rb.2 ≤ ra.2 else rb.1 < ra.1
  else a.modified.isAfter b.modified

/-- The directory of a path and the name in it, if it has one. What leads nowhere at the end of
either is left out, a path that ends in two dots has no name, and the directory of a bare name is a
single dot. -/
def splitPath? (path : String) : Option (String × String) :=
  let idle (n : String) : Bool := n == "" || n == "."
  match (Text.splitString '/' path).reverse.dropWhile idle with
  | [] => none
  | ".." :: _ => none
  | name :: above =>
    let dir := "/".intercalate (above.dropWhile idle).reverse
    some (if dir ≠ "" then dir else if path.toList.head? = some '/' then "/" else ".", name)

/-- What a listing tells of a name, if that is the name of a copy. -/
def info? (d : Disk) (dir file name : String) : Option Info :=
  if (file ++ mark).toList.isPrefixOf name.toList then
    match d.stat? (Disk.join dir name) with
    | some (.file content _ modified) =>
      some ⟨name, Disk.join dir name, modified, content.length⟩
    | _ => none
  else none

/-- The copies of a file, in the order of `precedes`. -/
def list (d : Disk) (path : String) : Except Failure (List Info) :=
  match splitPath? path with
  | none => .ok []
  | some (dir, file) =>
    if d.isThere dir then
      match d.list? dir with
      | none => .error .unlistable
      | some names => .ok ((names.filterMap (info? d dir file)).mergeSort precedes)
    else .ok []

end TypedConfig.Backup
