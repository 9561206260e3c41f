import TypedConfig.Disk
import TypedConfig.Text.Cut

/-!
# Paths

A path is a text of names between slashes, and is followed from the top of the tree. Each name but
the last has to lead to a directory; a single dot stays there, two dots lead one level up, and a
link leads on along its own path. A slash at the end asks for a directory as a dot would.

`Disk.follow` follows names to a place, `Disk.place` stops before a link at the very end. Both tell
a way that ends at a missing name from one that is barred, because only the first can be mended by
making directories.
-/

namespace TypedConfig.Disk

/-- The names between the slashes of a path. -/
def partsOf (path : String) : List String :=
  (Text.splitString '/' path).filter (· ≠ "")

/-- The names to follow along a path. -/
def namesOf (path : String) : List String :=
  if path.toList.getLast? = some '/' then partsOf path ++ ["."] else partsOf path

/-- The path of a place. -/
def pathOf (p : Place) : String :=
  "/" ++ "/".intercalate p

/-- The path of a name in a directory, whose own path may end with a slash. A name that starts with
a slash is the path of a place of its own. -/
def join (dir name : String) : String :=
  if name.toList.head? = some '/' then name
  else if dir.toList.getLast? = some '/' then dir ++ name
  else dir ++ "/" ++ name

/-- How many bytes a name may have. -/
def nameLimit : Nat := 255

/-- How many bytes a path may have. -/
def pathLimit : Nat := 4095

/-- How many links may be met on one path. -/
def linkLimit : Nat := 40

/-- Whether a text is a path at all. -/
def isPath (path : String) : Bool :=
  path ≠ "" && path.utf8ByteSize ≤ pathLimit && !path.toList.contains '\x00'

/-- Why names lead nowhere. -/
inductive Fault
  /-- A directory on the way is missing. -/
  | missing
  /-- Something stands in the way: no directory where one is needed, a name that is too long, or
  too many links. -/
  | barred
  deriving Repr, DecidableEq

/-- The place of a name in a directory. -/
def inside (d : Disk) (p : Place) (name : String) : Except Fault Place :=
  match d.node? p with
  | some .directory =>
    if name.utf8ByteSize ≤ nameLimit then .ok (p ++ [name]) else .error .barred
  | some _ => .error .barred
  | none => .error .missing

/-- Where a walk along names ends. -/
inductive Walk
  /-- At a place, which may be free. -/
  | arrived (p : Place)
  | lost (fault : Fault)
  /-- At a link, with the names that are left after it. -/
  | link (target : String) (rest : List String)

/-- Walks along names from a place up to the first link. -/
def walk (d : Disk) : Place → List String → Walk
  | p, [] => .arrived p
  | p, n :: ns =>
    match d.inside p n with
    | .error fault => .lost fault
    | .ok q =>
      if n = "." then walk d p ns
      else if n = ".." then walk d p.dropLast ns
      else match d.node? q with
        | some (.link target) => .link target ns
        | _ => walk d q ns

/-- The place that names lead to from the top through at most `links` links. -/
def follow (d : Disk) : Nat → List String → Except Fault Place
  | links, ns =>
    match d.walk [] ns with
    | .arrived p => .ok p
    | .lost fault => .error fault
    | .link target rest =>
      match links with
      | 0 => .error .barred
      | links + 1 => follow d links (namesOf target ++ rest)

/-- The place that names lead to, where the last one is not followed if it is a link. -/
def place (d : Disk) (ns : List String) : Except Fault Place :=
  match ns.getLast? with
  | none => .ok []
  | some n =>
    if n = "." ∨ n = ".." then d.follow linkLimit ns
    else do
      let p ← d.follow linkLimit ns.dropLast
      d.inside p n

/-- The place that a path leads to, free or not, when links are followed to the end. -/
def resolve? (d : Disk) (path : String) : Option Place :=
  if isPath path then (d.follow linkLimit (namesOf path)).toOption else none

/-- The place that a path names, where a link at the end is not followed. -/
def entry? (d : Disk) (path : String) : Option Place :=
  if isPath path then (d.place (namesOf path)).toOption else none

/-- What a path leads to. -/
def stat? (d : Disk) (path : String) : Option Node :=
  (d.resolve? path).bind d.node?

/-- Whether a path leads to anything. -/
def isThere (d : Disk) (path : String) : Bool :=
  (d.stat? path).isSome

/-- The path itself, or where it leads if its last name is a link that leads to something. -/
def target (d : Disk) (path : String) : String :=
  match (d.entry? path).bind d.node? with
  | some (.link _) =>
    match d.resolve? path with
    | some p => if (d.node? p).isSome then pathOf p else path
    | none => path
  | _ => path

end TypedConfig.Disk
