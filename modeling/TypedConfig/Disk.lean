/-!
# Disks

The part of a file system that the engine meets: a tree of directories, files and symbolic links,
a clock, and a switch for a disk without room. This module holds the tree, whose places are reached
by the names from its top. `Disk.node?_put` and `Disk.node?_drop` say what a change at one place
means for every place. How paths lead to places is in `TypedConfig.Disk.Path`, and what the engine
does along paths in `TypedConfig.Disk.Access`.
-/

namespace TypedConfig

/-- When a file was written last: at a given second of the epoch, or at a tick of the disk's own
clock, which is later than any given second and never comes again. -/
inductive Moment
  | second (n : Nat)
  | tick (n : Nat)
  deriving Repr, DecidableEq

/-- Whether the first moment is the later one. -/
def Moment.isAfter : Moment → Moment → Bool
  | .second m, .second n => n < m
  | .second _, .tick _ => false
  | .tick _, .second _ => true
  | .tick m, .tick n => n < m

/-- What stands at a place of the tree. -/
inductive Node
  | directory
  | file (content : List UInt8) (mode : Nat) (modified : Moment)
  | link (target : String)
  deriving Repr, DecidableEq

/-- The trace that tells one state of a path from another: when and how long a file was written. -/
inductive Stamp
  | directory
  | file (modified : Moment) (size : Nat)
  deriving Repr, DecidableEq

/-- A physical path, as the names from the top. -/
abbrev Place := List String

/-- A disk: what stands at each place, how often its clock has ticked, the local time in the form
in which backups are named, and whether it has no room for contents. -/
structure Disk where
  nodes : List (Place × Node) := []
  ticks : Nat := 0
  now : String := ""
  isFull : Bool := false
  deriving Repr

namespace Disk

/-- What stands at a place; the top is a directory. -/
def node? (d : Disk) (p : Place) : Option Node :=
  if p.isEmpty then some .directory else d.nodes.lookup p

/-- Whether a directory stands at a place. -/
def isDirectoryAt (d : Disk) (p : Place) : Bool :=
  d.node? p == some .directory

/-- The disk with another node at a place, or a new one. -/
def put (d : Disk) (p : Place) (n : Node) : Disk :=
  { d with nodes := (p, n) :: d.nodes.filter (·.1 != p) }

/-- The disk with nothing at a place. -/
def drop (d : Disk) (p : Place) : Disk :=
  { d with nodes := d.nodes.filter (·.1 != p) }

/-- Without its nodes nothing is found for a place, and all else is found for the others. -/
theorem lookup_filter_ne (p q : Place) (nodes : List (Place × Node)) :
    (nodes.filter (·.1 != p)).lookup q = if q = p then none else nodes.lookup q := by
  induction nodes with
  | nil => simp
  | cons a nodes ih =>
    obtain ⟨r, n⟩ := a
    by_cases hr : r = p
    · by_cases hq : q = p
      · simpa [hr, hq] using ih
      · have hne : (q == p) = false := beq_eq_false_iff_ne.2 hq
        simp [hr, hq, hne, ih, List.lookup_cons]
    · by_cases hq : q = r
      · simp [hr, hq]
      · have hne : (q == r) = false := beq_eq_false_iff_ne.2 hq
        simp [hr, hne, ih, List.lookup_cons]

/-- What was put at a place stands there, and the other places are as they were. -/
theorem node?_put {d : Disk} {p : Place} (h : p ≠ []) (n : Node) (q : Place) :
    (d.put p n).node? q = if q = p then some n else d.node? q := by
  by_cases hq : q = p
  · simp [node?, put, hq, h]
  · have hne : (q == p) = false := beq_eq_false_iff_ne.2 hq
    simp [node?, put, hq, hne, List.lookup_cons, lookup_filter_ne]

/-- Nothing stands at a place that was cleared, and the other places are as they were. -/
theorem node?_drop {d : Disk} {p : Place} (h : p ≠ []) (q : Place) :
    (d.drop p).node? q = if q = p then none else d.node? q := by
  by_cases hq : q = p
  · simp [node?, drop, hq, h, lookup_filter_ne]
  · simp [node?, drop, hq, lookup_filter_ne]

/-- All nodes below a place, with their paths from there, in the order of these paths. -/
def tree (d : Disk) (p : Place) : List (String × Node) :=
  let below := d.nodes.filterMap fun (q, n) =>
    (p.isPrefixOf? q).bind fun rest =>
      if rest.isEmpty then none else some ("/".intercalate rest, n)
  below.mergeSort fun a b => a.1 ≤ b.1

end Disk

/-- A state and the disk as an operation leaves them, with the operation's answer. -/
abbrev OnDisk (σ α : Type) := σ × Disk × α

end TypedConfig
