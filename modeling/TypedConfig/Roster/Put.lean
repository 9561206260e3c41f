import TypedConfig.Roster

/-!
# Rosters as functions of names

A sorted roster is given by what each name leads to (`Roster.Sorted.ext`): there is no room for
another order. So the ways to change it by name come down to one, to say what a name leads to
(`Roster.put`), and two such changes under different names can be made in either order
(`Roster.Sorted.put_comm`).
-/

namespace TypedConfig.Roster

variable {α : Type} [Named α]

/-- Sorted rosters whose names lead to the same things are the same. -/
theorem Sorted.ext {xs ys : List α} (hxs : Sorted xs) (hys : Sorted ys)
    (h : ∀ n, find? n xs = find? n ys) : xs = ys := by
  induction xs generalizing ys with
  | nil =>
    refine (List.eq_nil_iff_forall_not_mem.2 fun y hy => ?_).symm
    have hfound : find? (Named.name y) ys = some y := hys.find?_eq_some_iff.2 ⟨hy, rfl⟩
    rw [← h] at hfound
    cases hfound
  | cons x xs ih =>
    obtain ⟨hx, hxs'⟩ := List.pairwise_cons.1 hxs
    cases ys with
    | nil =>
      have hfound := h (Named.name x)
      rw [find?_cons_self rfl] at hfound
      cases hfound
    | cons y ys =>
      obtain ⟨hy, hys'⟩ := List.pairwise_cons.1 hys
      have hxmem : x ∈ y :: ys :=
        (hys.find?_eq_some_iff.1 ((h _).symm.trans (find?_cons_self rfl))).1
      have hymem : y ∈ x :: xs :=
        (hxs.find?_eq_some_iff.1 ((h _).trans (find?_cons_self rfl))).1
      -- If the first things were different, each would come before the other.
      have hsame : x = y := by
        rcases List.mem_cons.1 hxmem with rfl | hxmem
        · rfl
        · rcases List.mem_cons.1 hymem with rfl | hymem
          · rfl
          · exact absurd (String.lt_trans (hx y hymem) (hy x hxmem)) (String.lt_irrefl _)
      subst hsame
      refine congrArg (x :: ·) (ih hxs' hys' fun n => ?_)
      by_cases hn : Named.name x = n
      · subst hn
        have hnone {zs : List α} (hzs : ∀ z ∈ zs, Named.name x < Named.name z) :
            find? (Named.name x) zs = none :=
          find?_eq_none.2 fun z hz => (ne_of_lt (hzs z hz)).symm
        rw [hnone hx, hnone hy]
      · have hfound := h n
        rwa [find?_cons_of_ne hn, find?_cons_of_ne hn] at hfound

/-- A name that leads to nothing is removed in vain. -/
theorem erase_of_find?_eq_none {n : String} {xs : List α} (h : find? n xs = none) :
    erase n xs = xs := by
  induction xs with
  | nil => rfl
  | cons x xs ih =>
    have hne := find?_eq_none.1 h x (List.mem_cons_self ..)
    rw [find?_cons_of_ne hne] at h
    rw [erase, if_neg (by simpa using hne), ih h]

/-- The roster in which a name leads to a given thing, or to none. -/
def put (n : String) : Option α → List α → List α
  | none, xs => erase n xs
  | some x, xs => if contains n xs then replace n x xs else insert x xs

/-- What may be put under a name: nothing, or a thing of that name. -/
def Fits (n : String) (x : Option α) : Prop :=
  ∀ y ∈ x, Named.name y = n

/-- Nothing may be put under any name. -/
theorem fits_none (n : String) : Fits n (none : Option α) :=
  fun x hx => by cases hx

/-- A thing may be put under its own name. -/
theorem fits_some {n : String} {x : α} (h : Named.name x = n) : Fits n (some x) :=
  fun _ hy => Option.some.inj hy ▸ h

/-- What a name leads to fits it. -/
theorem fits_find? (n : String) (xs : List α) : Fits n (find? n xs) :=
  fun _ hx => name_of_find?_eq_some hx

/-- Putting a thing in the place of another one replaces it. -/
theorem put_some_of_find?_eq_some {n : String} {x : α} {xs : List α} (h : find? n xs = some x)
    (y : α) : put n (some y) xs = replace n y xs := by
  simp [put, contains, h]

/-- Putting a thing where there is none inserts it. -/
theorem put_some_of_find?_eq_none {n : String} {xs : List α} (h : find? n xs = none) (y : α) :
    put n (some y) xs = insert y xs := by
  simp [put, contains, h]

/-- Putting what is there changes nothing. -/
theorem put_find? (n : String) (xs : List α) : put n (find? n xs) xs = xs := by
  cases h : find? n xs with
  | none => exact erase_of_find?_eq_none h
  | some x => rw [put_some_of_find?_eq_some h, replace_self h]

/-- The other names lead where they led. -/
theorem find?_put_of_ne {m n : String} {x : Option α} (hx : Fits m x) (hne : m ≠ n) (xs : List α) :
    find? n (put m x xs) = find? n xs := by
  cases x with
  | none => exact find?_erase_of_ne hne xs
  | some x =>
    have hname : Named.name x = m := hx x rfl
    cases hfound : find? m xs with
    | none =>
      rw [put_some_of_find?_eq_none hfound]
      exact find?_insert_of_ne (hname ▸ hne) xs
    | some y =>
      rw [put_some_of_find?_eq_some hfound]
      exact find?_replace_of_ne hname hne xs

namespace Sorted

variable {xs : List α}

/-- The name leads to what was put under it. -/
theorem find?_put_self (h : Sorted xs) {n : String} {x : Option α} (hx : Fits n x) :
    find? n (Roster.put n x xs) = x := by
  cases x with
  | none => exact h.find?_erase_self n
  | some x =>
    obtain rfl : Named.name x = n := hx x rfl
    cases hfound : find? (Named.name x) xs with
    | none =>
      rw [put_some_of_find?_eq_none hfound]
      exact find?_insert_self hfound
    | some y =>
      rw [put_some_of_find?_eq_some hfound]
      exact find?_replace_self rfl (by rw [hfound]; rfl)

/-- A roster stays sorted when something that fits is put under a name. -/
theorem put (h : Sorted xs) {n : String} {x : Option α} (hx : Fits n x) :
    Sorted (Roster.put n x xs) := by
  cases x with
  | none => exact h.erase n
  | some x =>
    obtain rfl : Named.name x = n := hx x rfl
    cases hfound : find? (Named.name x) xs with
    | none =>
      rw [put_some_of_find?_eq_none hfound]
      exact h.insert hfound
    | some y =>
      rw [put_some_of_find?_eq_some hfound]
      exact h.replace rfl

/-- Under one name the last thing stays. -/
theorem put_put (h : Sorted xs) {n : String} {x y : Option α} (hx : Fits n x) (hy : Fits n y) :
    Roster.put n y (Roster.put n x xs) = Roster.put n y xs := by
  refine ((h.put hx).put hy).ext (h.put hy) fun k => ?_
  by_cases hk : n = k
  · subst hk
    rw [(h.put hx).find?_put_self hy, h.find?_put_self hy]
  · rw [find?_put_of_ne hy hk, find?_put_of_ne hx hk, find?_put_of_ne hy hk]

/-- Under different names the order does not matter. -/
theorem put_comm (h : Sorted xs) {m n : String} (hne : m ≠ n) {x y : Option α} (hx : Fits m x)
    (hy : Fits n y) :
    Roster.put n y (Roster.put m x xs) = Roster.put m x (Roster.put n y xs) := by
  refine ((h.put hx).put hy).ext ((h.put hy).put hx) fun k => ?_
  by_cases hm : m = k
  · subst hm
    rw [find?_put_of_ne hy hne.symm, h.find?_put_self hx, (h.put hy).find?_put_self hx]
  · rw [find?_put_of_ne hx hm]
    by_cases hn : n = k
    · subst hn
      rw [(h.put hx).find?_put_self hy, h.find?_put_self hy]
    · rw [find?_put_of_ne hy hn, find?_put_of_ne hx hm, find?_put_of_ne hy hn]

end Sorted

end TypedConfig.Roster
