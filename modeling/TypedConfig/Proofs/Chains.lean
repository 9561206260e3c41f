import Mathlib.Data.List.Induction
import Mathlib.Data.List.Nodup
import TypedConfig.Migration

/-!
# The steps of a chain

In whatever order its steps were added, a chain holds them in the order of their targets, and those
with one target in the order in which they were added (`Chain.arranged_ofList`). These two facts
leave no choice (`Chain.Arranged.unique`), so a chain of steps with different targets does not
depend on the order of the additions at all.

A line goes through the steps of a chain that are due, which are those whose target lies above the
version of its file (`Chain.exists_goesThrough_run`). They are due for the whole line as soon as no
step changes that version.
-/

namespace TypedConfig.Migration

/-- The step leaves the version of the file as it is. -/
def Step.KeepsVersion (s : Step) : Prop :=
  ∀ d, (s.revise d).versionRead = d.versionRead

namespace Chain

variable {s t : Step} {steps steps' chain : List Step} {d : LineData}

/-! ## The order of the steps -/

/-- A list has the same steps as another one, in the order of their targets, and those with one
target in the order of the other list. -/
structure Arranged (steps chain : List Step) : Prop where
  ascending : chain.Pairwise fun s t => s.target ≤ t.target
  asAdded : ∀ n, (chain.filter fun s => s.target = n) = steps.filter fun s => s.target = n

/-- An arrangement has the steps that are arranged and no others. -/
theorem Arranged.mem_iff (h : Arranged steps chain) : s ∈ chain ↔ s ∈ steps := by
  have hmem (list : List Step) : s ∈ list ↔ s ∈ list.filter fun t => t.target = s.target := by
    simp
  rw [hmem chain, h.asAdded, ← hmem steps]

/-- Some of the steps are arranged as all of them are. -/
theorem Arranged.filter (h : Arranged steps chain) (p : Step → Bool) :
    Arranged (steps.filter p) (chain.filter p) where
  ascending := h.ascending.filter p
  asAdded n := by
    calc ((chain.filter p).filter fun s => s.target = n)
        = (chain.filter fun s => s.target = n).filter p := List.filter_comm ..
      _ = (steps.filter fun s => s.target = n).filter p := by rw [h.asAdded n]
      _ = (steps.filter p).filter fun s => s.target = n := List.filter_comm ..

/-- The first step of a list in the order of the targets has the least one. -/
theorem Arranged.head_le (h : Arranged steps (s :: chain)) (ht : t ∈ steps) :
    s.target ≤ t.target := by
  rcases List.mem_cons.1 (h.mem_iff.2 ht) with rfl | hmem
  · exact Nat.le_refl _
  · exact List.rel_of_pairwise_cons h.ascending hmem

/-- Steps can be arranged in one way only. -/
theorem Arranged.unique {chain' : List Step} (h : Arranged steps chain)
    (h' : Arranged steps chain') : chain = chain' := by
  induction chain generalizing steps chain' with
  | nil =>
    have hsteps (s : Step) : s ∉ chain' := fun hs => by simpa using h.mem_iff.2 (h'.mem_iff.1 hs)
    exact (List.eq_nil_iff_forall_not_mem.2 hsteps).symm
  | cons s chain ih =>
    have hs : s ∈ chain' := h'.mem_iff.2 (h.mem_iff.1 (List.mem_cons_self ..))
    cases chain' with
    | nil => cases hs
    | cons t chain' =>
      -- Both first steps have the least target, and of this one the steps are the same.
      have hle : s.target ≤ t.target := h.head_le (h'.mem_iff.1 (List.mem_cons_self ..))
      have hge : t.target ≤ s.target := h'.head_le (h.mem_iff.1 (List.mem_cons_self ..))
      have htarget : s.target = t.target := by omega
      have hsame (n : Nat) : ((s :: chain).filter fun u => u.target = n) =
          (t :: chain').filter fun u => u.target = n := (h.asAdded n).trans (h'.asAdded n).symm
      have hhead : s = t := by
        have hfirst := hsame t.target
        rw [List.filter_cons_of_pos (by simpa using htarget),
          List.filter_cons_of_pos (by simp)] at hfirst
        exact (List.cons.inj hfirst).1
      subst hhead
      have htail (n : Nat) : (chain.filter fun u => u.target = n) =
          chain'.filter fun u => u.target = n := by
        have hn := hsame n
        by_cases hsn : s.target = n
        · rw [List.filter_cons_of_pos (by simpa using hsn),
            List.filter_cons_of_pos (by simpa using hsn)] at hn
          exact (List.cons.inj hn).2
        · rwa [List.filter_cons_of_neg (by simpa using hsn),
            List.filter_cons_of_neg (by simpa using hsn)] at hn
      have hrest : Arranged chain chain := ⟨h.ascending.tail, fun _ => rfl⟩
      have hrest' : Arranged chain chain' := ⟨h'.ascending.tail, fun n => (htail n).symm⟩
      rw [ih hrest hrest']

/-- A step that is added comes behind those with its target. -/
theorem filter_add (h : chain.Pairwise fun s t => s.target ≤ t.target) (s : Step) (n : Nat) :
    ((add s chain).filter fun t => t.target = n) = (chain ++ [s]).filter fun t => t.target = n := by
  induction chain with
  | nil => rfl
  | cons t chain ih =>
    rw [add]
    split
    · rw [List.cons_append, List.filter_cons, List.filter_cons, ih h.tail]
    · next hgt =>
      have hle : ∀ u ∈ t :: chain, t.target ≤ u.target := by
        intro u hu
        rcases List.mem_cons.1 hu with rfl | hu
        · exact Nat.le_refl _
        · exact List.rel_of_pairwise_cons h hu
      rw [List.filter_append]
      by_cases hs : s.target = n
      · -- From here on all targets lie above that of the step.
        have hnone : ((t :: chain).filter fun u => u.target = n) = [] := by
          apply List.filter_eq_nil_iff.2
          intro u hu
          have hut := hle u hu
          rw [decide_eq_true_eq]
          omega
        rw [hnone, List.filter_cons_of_pos (by simpa using hs), hnone,
          List.filter_cons_of_pos (by simpa using hs), List.filter_nil, List.nil_append]
      · rw [List.filter_cons_of_neg (a := s) (by simpa using hs),
          List.filter_cons_of_neg (a := s) (by simpa using hs), List.filter_nil, List.append_nil]

/-- A chain holds the steps that were added, in the order of their targets. -/
theorem arranged_ofList (steps : List Step) : Arranged steps (ofList steps) := by
  induction steps using List.reverseRecOn with
  | nil => exact ⟨List.Pairwise.nil, fun _ => rfl⟩
  | append_singleton steps s ih =>
    have hadd : ofList (steps ++ [s]) = add s (ofList steps) := by
      rw [ofList, List.foldl_append]
      rfl
    rw [hadd]
    constructor
    · exact pairwise_add ih.ascending
    · intro n
      rw [filter_add ih.ascending, List.filter_append, List.filter_append, ih.asAdded n]

/-- Steps with different targets make one chain, in whatever order they are added. -/
theorem ofList_eq_of_perm (h : steps.Perm steps') (hnodup : (steps.map Step.target).Nodup) :
    ofList steps' = ofList steps := by
  have hchain' := arranged_ofList steps'
  refine Arranged.unique ⟨hchain'.ascending, fun n => ?_⟩ (arranged_ofList steps)
  have hperm := h.filter fun s => s.target = n
  -- There is one step to the target at most, so the order of those to it is no choice.
  have hle : (steps.filter fun s => s.target = n).length ≤ 1 := by
    have hcount : (steps.map Step.target).count n ≤ 1 := List.nodup_iff_count_le_one.1 hnodup n
    rw [List.count, List.countP_map] at hcount
    rw [← List.countP_eq_length_filter]
    exact hcount
  rw [hchain'.asAdded n]
  rcases hsteps : (steps.filter fun s => s.target = n) with _ | ⟨s, _ | ⟨t, rest⟩⟩
  · rw [hsteps] at hperm ⊢
    exact hperm.nil_eq.symm
  · rw [hsteps] at hperm ⊢
    exact List.perm_singleton.1 hperm.symm
  · rw [hsteps] at hle
    simp at hle

/-! ## A line on its way through a chain -/

/-- A line after steps that were called one after the other. -/
def revised (steps : List Step) (d : LineData) : LineData :=
  steps.foldl (fun line step => step.revise line) d

/-- What a call of a step lets the world know: the line that it is given, and the line that it has
dropped, if so. -/
def callEvents (s : Step) (d : LineData) : List Event :=
  let line := s.revise d
  .migrated (some s.target) d ::
    if line.isDropped then
      [.record .debug .engine ("Migration to version " ++ Numeral.ofNat s.target ++ " dropped " ++
        line.config ++ "." ++ line.sectionName)]
    else []

/-- The calls of steps one after the other, each with what those before it have made of the line. -/
def calls : List Step → LineData → List Event
  | [], _ => []
  | s :: ss, d => callEvents s d ++ calls ss (s.revise d)

/-- How a line goes through steps that are due: those called are the first ones, up to the one that
drops the line. -/
structure GoesThrough (due called : List Step) (d : LineData) (x : Traced LineData) : Prop where
  isFirst : called <+: due
  /-- The steps before the last one have left the line an option's name. -/
  goesOn : ∀ front, front <+: called → front ≠ [] → front ≠ called →
    (revised front d).isDropped = false
  /-- Steps are left out only behind one that has dropped the line. -/
  stops : called ≠ due → called ≠ [] ∧ (revised called d).isDropped = true
  /-- The line is what the steps called have made of it. -/
  result : x.result = revised called d
  /-- No other step is called. -/
  events : x.events = calls called d

/-- Without steps that are due a line stays as it is. -/
theorem goesThrough_nil (d : LineData) : GoesThrough [] [] d (pure d) where
  isFirst := List.prefix_refl _
  goesOn _ hfront hne _ := absurd (List.prefix_nil.1 hfront) hne
  stops h := absurd rfl h
  result := rfl
  events := rfl

/-- A step that drops the line is the last one. -/
theorem goesThrough_of_dropped (h : (s.revise d).isDropped = true) (due : List Step) :
    GoesThrough (s :: due) [s] d ⟨callEvents s d, s.revise d⟩ where
  isFirst := ⟨due, rfl⟩
  goesOn front hfront hne hproper := by
    obtain hnil | ⟨rest, hrest, hrest'⟩ := List.prefix_cons_iff.1 hfront
    · exact absurd hnil hne
    · rw [List.prefix_nil.1 hrest'] at hrest
      exact absurd hrest hproper
  stops _ := ⟨List.cons_ne_nil _ _, h⟩
  result := rfl
  events := (List.append_nil _).symm

/-- Behind a step that has not dropped the line, it goes on with the next one. -/
theorem GoesThrough.cons {due called : List Step} {x : Traced LineData}
    (h : (s.revise d).isDropped = false) (hx : GoesThrough due called (s.revise d) x) :
    GoesThrough (s :: due) (s :: called) d ⟨callEvents s d ++ x.events, x.result⟩ where
  isFirst := (List.prefix_cons_inj s).2 hx.isFirst
  goesOn front hfront hne hproper := by
    obtain hnil | ⟨rest, rfl, hrest⟩ := List.prefix_cons_iff.1 hfront
    · exact absurd hnil hne
    · show (revised rest (s.revise d)).isDropped = false
      by_cases hfirst : rest = []
      · rw [hfirst]
        exact h
      · apply hx.goesOn rest hrest hfirst
        intro heq
        exact hproper (by rw [heq])
  stops hne := ⟨List.cons_ne_nil _ _, (hx.stops fun heq => hne (by rw [heq])).2⟩
  result := hx.result
  events := by
    rw [calls, hx.events]

/-- A chain calls a step that is due, and goes on with the next one unless the line is dropped. -/
theorem run_cons (s : Step) (chain : Chain) (d : LineData) :
    run (s :: chain) d =
      if s.target ≤ d.versionRead then run chain d
      else if (s.revise d).isDropped then ⟨callEvents s d, s.revise d⟩
      else
        ⟨callEvents s d ++ (run chain (s.revise d)).events, (run chain (s.revise d)).result⟩ := by
  rw [run, callEvents]
  dsimp only
  cases (s.revise d).isDropped <;> rfl

/-- A line goes through the steps of a chain whose target lies above its version, as long as no step
changes this version. -/
theorem exists_goesThrough_run (h : ∀ s ∈ chain, s.KeepsVersion) (d : LineData) :
    ∃ called,
      GoesThrough (chain.filter fun s => d.versionRead < s.target) called d (run chain d) := by
  induction chain generalizing d with
  | nil => exact ⟨[], goesThrough_nil d⟩
  | cons s chain ih =>
    have hchain : ∀ s ∈ chain, s.KeepsVersion := fun t ht => h t (List.mem_cons_of_mem s ht)
    rw [run_cons]
    split
    · next hle =>
      rw [List.filter_cons_of_neg (by simpa using hle)]
      exact ih hchain d
    · next hdue =>
      rw [List.filter_cons_of_pos (by simpa using hdue)]
      split
      · next hdropped => exact ⟨[s], goesThrough_of_dropped hdropped _⟩
      · next hkept =>
        -- The steps that are due for the line are so for what the step makes of it.
        obtain ⟨called, hcalled⟩ := ih hchain (s.revise d)
        rw [h s (List.mem_cons_self ..) d] at hcalled
        exact ⟨s :: called, hcalled.cons (Bool.not_eq_true _ ▸ hkept)⟩

/-- A chain runs the steps above the version of a line in the order of their targets, those with one
target as they were added, and stops behind the first that drops the line. The order of additions
makes no other difference. -/
theorem goesThrough_ofList (h : ∀ s ∈ steps, s.KeepsVersion) :
    (∀ d, ∃ due called, Arranged (steps.filter fun s => d.versionRead < s.target) due ∧
      GoesThrough due called d (run (ofList steps) d)) ∧
    ∀ steps', steps.Perm steps' → (steps.map Step.target).Nodup →
      ∀ d, run (ofList steps') d = run (ofList steps) d := by
  have hchain := arranged_ofList steps
  constructor
  · intro d
    have hkeeps : ∀ s ∈ ofList steps, s.KeepsVersion := fun s hs => h s (hchain.mem_iff.1 hs)
    obtain ⟨called, hcalled⟩ := exists_goesThrough_run hkeeps d
    exact ⟨_, called, hchain.filter _, hcalled⟩
  · intro steps' hperm hnodup d
    rw [ofList_eq_of_perm hperm hnodup]

/-- A step that gives the option of a name another one. -/
def renames (target : Nat) (old new : String) : Step where
  target := target
  revise d := if d.option = some old then { d with option := some new } else d

/-- A new name leaves the version of the line. -/
theorem keepsVersion_renames (target : Nat) (old new : String) :
    (renames target old new).KeepsVersion := by
  intro d
  unfold renames
  dsimp only
  split
  · rfl
  · rfl

/-- Steps to three versions, which are not added in this order; the first one to version 3 drops the
option that the one to version 2 has left. -/
def repainting : List Step :=
  [renames 3 "colour" "", renames 1 "old_colour" "lost", renames 3 "" "revived",
    renames 2 "old_colour" "colour"]

/-- A line of version 1. -/
def oldColour : LineData where
  config := "app"
  versionRead := 1
  sectionName := "look"
  option := some "old_colour"
  value := some "red"

/-- The line is dropped by the second of the three steps that are due, and two of the steps make one
chain in both orders. -/
theorem goesThrough_repainting :
    (∃ due called, Arranged (repainting.filter fun s => 1 < s.target) due ∧
      GoesThrough due called oldColour (run (ofList repainting) oldColour)) ∧
    (run (ofList repainting) oldColour).result = { oldColour with option := some "" } ∧
    (run (ofList repainting) oldColour).events.length = 3 ∧
    ∀ d, run (ofList [renames 3 "colour" "tint", renames 2 "hue" "colour"]) d =
      run (ofList [renames 2 "hue" "colour", renames 3 "colour" "tint"]) d := by
  have hkeeps : ∀ s ∈ repainting, s.KeepsVersion := by
    intro s hs
    simp only [repainting, List.mem_cons, List.not_mem_nil, or_false] at hs
    rcases hs with rfl | rfl | rfl | rfl <;> exact keepsVersion_renames _ _ _
  have hkeeps' : ∀ s ∈ [renames 2 "hue" "colour", renames 3 "colour" "tint"], s.KeepsVersion := by
    intro s hs
    simp only [List.mem_cons, List.not_mem_nil, or_false] at hs
    rcases hs with rfl | rfl <;> exact keepsVersion_renames _ _ _
  refine ⟨(goesThrough_ofList hkeeps).1 oldColour, rfl, rfl, ?_⟩
  exact (goesThrough_ofList hkeeps').2 _ (List.Perm.swap ..) (by decide)

end Chain

end TypedConfig.Migration
