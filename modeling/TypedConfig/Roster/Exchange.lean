import TypedConfig.Roster

/-!
# Exchanges

What an operation does to the things of a list, whatever their order: some of them are taken out,
others are put in, and all the rest stays, each thing as often as it was there (`Exchanged`).
Adding, removing and replacing a thing of a roster are exchanges of that thing alone.
-/

namespace TypedConfig

/-- The second list comes from the first by an exchange of `before` for `after`. -/
def Exchanged {α : Type} (before after xs ys : List α) : Prop :=
  ∃ rest, xs.Perm (before ++ rest) ∧ ys.Perm (after ++ rest)

namespace Exchanged

variable {α β : Type} {before after xs ys : List α}

/-- An exchange shows in what a function makes of the things. -/
theorem map (h : Exchanged before after xs ys) (f : α → β) :
    Exchanged (before.map f) (after.map f) (xs.map f) (ys.map f) := by
  obtain ⟨rest, hxs, hys⟩ := h
  refine ⟨rest.map f, ?_, ?_⟩
  · rw [← List.map_append]
    exact hxs.map f
  · rw [← List.map_append]
    exact hys.map f

/-- An exchange shows in what the things hold. -/
theorem flatMap (h : Exchanged before after xs ys) (f : α → List β) :
    Exchanged (before.flatMap f) (after.flatMap f) (xs.flatMap f) (ys.flatMap f) := by
  obtain ⟨rest, hxs, hys⟩ := h
  refine ⟨rest.flatMap f, ?_, ?_⟩
  · rw [← List.flatMap_append]
    exact hxs.flatMap_right f
  · rw [← List.flatMap_append]
    exact hys.flatMap_right f

/-- What is exchanged may have much in common itself. -/
theorem within {us vs : List α} (h : Exchanged us vs xs ys) (h' : Exchanged before after us vs) :
    Exchanged before after xs ys := by
  obtain ⟨rest, hxs, hys⟩ := h
  obtain ⟨inner, hus, hvs⟩ := h'
  refine ⟨inner ++ rest, ?_, ?_⟩
  · rw [← List.append_assoc]
    exact hxs.trans (hus.append_right rest)
  · rw [← List.append_assoc]
    exact hys.trans (hvs.append_right rest)

end Exchanged

namespace Roster

variable {α : Type} [Named α]

/-- A thing that is added is there once more than before. -/
theorem perm_insert (x : α) (xs : List α) : (insert x xs).Perm (x :: xs) := by
  induction xs with
  | nil => exact .refl _
  | cons y ys ih =>
    simp only [insert]
    split
    · exact .refl _
    · exact (ih.cons y).trans (.swap x y ys)

/-- A thing that is removed is there once less than before. -/
theorem perm_erase {n : String} {x : α} {xs : List α} (h : find? n xs = some x) :
    xs.Perm (x :: erase n xs) := by
  induction xs with
  | nil => cases h
  | cons y ys ih =>
    simp only [erase]
    split
    · next hy =>
      rw [find?_cons_self (eq_of_beq hy)] at h
      rw [Option.some.inj h]
    · next hy =>
      rw [find?_cons_of_ne fun e => hy (beq_iff_eq.2 e)] at h
      exact ((ih h).cons y).trans (.swap x y _)

/-- What takes the place of a thing is there, and the rest stays. -/
theorem perm_replace {n : String} {x : α} {xs : List α} (h : find? n xs = some x) (y : α) :
    (replace n y xs).Perm (y :: erase n xs) := by
  induction xs with
  | nil => cases h
  | cons z zs ih =>
    simp only [replace, erase]
    split
    · exact .refl _
    · next hz =>
      rw [find?_cons_of_ne fun e => hz (beq_iff_eq.2 e)] at h
      exact ((ih h).cons z).trans (.swap y z _)

/-- Adding a thing exchanges nothing for it. -/
theorem exchanged_insert (x : α) (xs : List α) : Exchanged [] [x] xs (insert x xs) :=
  ⟨xs, .refl xs, perm_insert x xs⟩

/-- Removing a thing exchanges it for nothing. -/
theorem exchanged_erase {n : String} {x : α} {xs : List α} (h : find? n xs = some x) :
    Exchanged [x] [] xs (erase n xs) :=
  ⟨erase n xs, perm_erase h, .refl _⟩

/-- Replacing a thing exchanges it for the other one. -/
theorem exchanged_replace {n : String} {x : α} {xs : List α} (h : find? n xs = some x) (y : α) :
    Exchanged [x] [y] xs (replace n y xs) :=
  ⟨erase n xs, perm_erase h, perm_replace h y⟩

/-- A thing that is removed and added again as another takes its own place among the rest. -/
theorem exchanged_insert_erase {n : String} {x : α} {xs : List α} (h : find? n xs = some x)
    (y : α) : Exchanged [x] [y] xs (insert y (erase n xs)) :=
  ⟨erase n xs, perm_erase h, perm_insert y _⟩

end Roster

end TypedConfig
