import TypedConfig.Event

/-!
# Migrations

A file of an older version is read through a migration: each section header and option line is
revised before it is used. A migration is a single revision or a chain of steps, each to a
target version; a chain runs the steps whose target lies above the version of the file, in the
order of their targets, and stops once a step has dropped the line. Each revision that is called
is an event.

`Chain.pairwise_add` says that a chain stays in the order of its targets, whatever the order in
which its steps are added.
-/

namespace TypedConfig

/-- Whether a revision has dropped an option line, by leaving its name empty. -/
def LineData.isDropped (d : LineData) : Bool :=
  d.option == some ""

namespace Migration

/-- A revision of the lines of files below a version. -/
structure Step where
  target : Nat
  revise : LineData → LineData

/-- The steps of a chain, in the order in which they run. -/
abbrev Chain := List Step

namespace Chain

/-- The chain with one more step, after those with the same or a smaller target. -/
def add (step : Step) : Chain → Chain
  | [] => [step]
  | s :: ss => if s.target ≤ step.target then s :: add step ss else step :: s :: ss

/-- The chain of steps that are added one after the other. -/
def ofList (steps : List Step) : Chain :=
  steps.foldl (fun chain step => add step chain) []

/-- Adding a step adds it and nothing else. -/
theorem mem_add {step s : Step} {chain : Chain} :
    s ∈ add step chain ↔ s = step ∨ s ∈ chain := by
  induction chain with
  | nil => simp [add]
  | cons t ts ih =>
    simp only [add]
    split
    · simp only [List.mem_cons, ih]
      exact or_left_comm
    · simp

/-- Adding a step keeps the order of the targets. -/
theorem pairwise_add {step : Step} {chain : Chain}
    (h : chain.Pairwise fun s t => s.target ≤ t.target) :
    (add step chain).Pairwise fun s t => s.target ≤ t.target := by
  induction chain with
  | nil => exact List.pairwise_singleton ..
  | cons t ts ih =>
    obtain ⟨ht, hts⟩ := List.pairwise_cons.1 h
    simp only [add]
    split
    · next hle =>
      refine List.pairwise_cons.2 ⟨fun s hs => ?_, ih hts⟩
      rcases mem_add.1 hs with rfl | hs
      · exact hle
      · exact ht s hs
    · next hgt =>
      refine List.pairwise_cons.2 ⟨fun s hs => ?_, h⟩
      rcases List.mem_cons.1 hs with rfl | hs
      · omega
      · have := ht s hs
        omega

/-- A line after the steps of a chain. -/
def run : Chain → LineData → Traced LineData
  | [], d => pure d
  | s :: ss, d =>
    if s.target ≤ d.versionRead then run ss d
    else do
      Traced.tell [.migrated (some s.target) d]
      let d := s.revise d
      if d.isDropped then do
        Traced.log .debug ("Migration to version " ++ Numeral.ofNat s.target ++ " dropped " ++
          d.config ++ "." ++ d.sectionName)
        pure d
      else run ss d

end Chain

end Migration

/-- A way to bring the lines of older files up to date. -/
inductive Migration
  /-- One revision, for all older versions alike. -/
  | single (revise : LineData → LineData)
  /-- Steps from version to version. -/
  | chain (steps : Migration.Chain)

/-- A line after a migration. -/
def Migration.run : Migration → LineData → Traced LineData
  | .single revise, d => do
    Traced.tell [.migrated none d]
    pure (revise d)
  | .chain steps, d => steps.run d

end TypedConfig
