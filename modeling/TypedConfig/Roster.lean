/-!
# Rosters

Lists of named things in the order of their names, which is the order of code points. A file's
sections, a section's options and the files themselves are rosters. `insert` keeps a roster
sorted, and the other operations take one apart by name.

`Sorted.find?_eq_some_iff` says that a name leads to the one thing that has it. The `Sorted` lemmas
say that each operation keeps a roster sorted, and the `find?` lemmas what each does to the thing of
its own name and that it leaves the others alone.
-/

namespace TypedConfig

/-- Things that go by a name. -/
class Named (α : Type) where
  name : α → String

namespace Roster

variable {α β : Type} [Named α]

/-- The names, in order. -/
def names (xs : List α) : List String :=
  xs.map Named.name

/-- Each name comes before those that follow it; in particular no name is there twice. -/
def Sorted (xs : List α) : Prop :=
  xs.Pairwise fun x y => Named.name x < Named.name y

/-- The thing of a name. -/
def find? (n : String) (xs : List α) : Option α :=
  xs.find? fun x => Named.name x == n

/-- Where the thing of a name stands. -/
def position? (n : String) (xs : List α) : Option Nat :=
  xs.findIdx? fun x => Named.name x == n

/-- Whether a name is taken. -/
def contains (n : String) (xs : List α) : Bool :=
  (find? n xs).isSome

/-- The roster with one more thing, before those with greater names. -/
def insert (x : α) : List α → List α
  | [] => [x]
  | y :: ys => if Named.name x < Named.name y then x :: y :: ys else y :: insert x ys

/-- The roster without the thing of a name. -/
def erase (n : String) : List α → List α
  | [] => []
  | x :: xs => if Named.name x == n then xs else x :: erase n xs

/-- The roster in which the thing of a name is another. -/
def replace (n : String) (y : α) : List α → List α
  | [] => []
  | x :: xs => if Named.name x == n then y :: xs else x :: replace n y xs

/-! ### What is there -/

/-- A thing that is found is there. -/
theorem mem_of_find?_eq_some {n : String} {x : α} {xs : List α} (h : find? n xs = some x) :
    x ∈ xs :=
  List.mem_of_find?_eq_some h

/-- A thing that is found has the name that was looked for. -/
theorem name_of_find?_eq_some {n : String} {x : α} {xs : List α} (h : find? n xs = some x) :
    Named.name x = n := by
  simpa using List.find?_some h

/-- A name that is not found is no thing's name. -/
theorem find?_eq_none {n : String} {xs : List α} :
    find? n xs = none ↔ ∀ x ∈ xs, Named.name x ≠ n := by
  simp [find?]

/-- A name is found if it is one of the names. -/
theorem isSome_find?_iff {n : String} {xs : List α} : (find? n xs).isSome ↔ n ∈ names xs := by
  simp only [find?, List.find?_isSome, beq_iff_eq, names, List.mem_map]

/-- The first thing is found by its name. -/
theorem find?_cons_self {n : String} {x : α} {xs : List α} (h : Named.name x = n) :
    find? n (x :: xs) = some x := by
  simp [find?, h]

/-- A thing of another name at the front is passed over. -/
theorem find?_cons_of_ne {n : String} {x : α} {xs : List α} (h : Named.name x ≠ n) :
    find? n (x :: xs) = find? n xs := by
  simp [find?, h]

/-- Things that look the same to a function that shows their names have the same names. -/
theorem names_eq_of_map_eq {xs ys : List α} {f : α → β}
    (hname : ∀ x y, f x = f y → Named.name x = Named.name y) (h : xs.map f = ys.map f) :
    names xs = names ys := by
  induction ys generalizing xs with
  | nil => rw [List.map_eq_nil_iff.1 h]
  | cons y ys ih =>
    cases xs with
    | nil => cases h
    | cons x xs =>
      obtain ⟨hx, hxs⟩ := List.cons.inj h
      have hnames := ih hxs
      unfold names at hnames ⊢
      rw [List.map_cons, List.map_cons, hname x y hx, hnames]

/-- What a name leads to looks the same in rosters that look the same. -/
theorem map_find?_of_map_eq {xs ys : List α} {f : α → β}
    (hname : ∀ x y, f x = f y → Named.name x = Named.name y) (h : xs.map f = ys.map f)
    (n : String) : (find? n xs).map f = (find? n ys).map f := by
  induction ys generalizing xs with
  | nil => rw [List.map_eq_nil_iff.1 h]
  | cons y ys ih =>
    cases xs with
    | nil => cases h
    | cons x xs =>
      obtain ⟨hx, hxs⟩ := List.cons.inj h
      by_cases hn : Named.name y = n
      · have hn' : Named.name x = n := (hname x y hx).trans hn
        rw [find?_cons_self hn, find?_cons_self hn', Option.map_some, Option.map_some, hx]
      · have hn' : Named.name x ≠ n := fun e => hn ((hname x y hx).symm.trans e)
        rw [find?_cons_of_ne hn, find?_cons_of_ne hn']
        exact ih hxs

/-- A function that keeps each name keeps the names. -/
theorem names_map {f : α → α} (hf : ∀ x, Named.name (f x) = Named.name x) (xs : List α) :
    names (xs.map f) = names xs := by
  simp only [names, List.map_map]
  exact List.map_congr_left fun x _ => hf x

/-- A function that keeps the names applies to what is found. -/
theorem find?_map {f : α → α} (hf : ∀ x, Named.name (f x) = Named.name x) (n : String)
    (xs : List α) : find? n (xs.map f) = (find? n xs).map f := by
  induction xs with
  | nil => rfl
  | cons x xs ih =>
    rw [List.map_cons]
    by_cases hx : Named.name x = n
    · rw [find?_cons_self hx, find?_cons_self ((hf x).trans hx), Option.map_some]
    · rw [find?_cons_of_ne hx, find?_cons_of_ne fun h => hx ((hf x).symm.trans h), ih]

/-- What stands at the position of a name is what is found by the name. -/
theorem bind_position? (n : String) (xs : List α) :
    (position? n xs).bind (fun i => xs[i]?) = find? n xs := by
  induction xs with
  | nil => rfl
  | cons x xs ih =>
    by_cases hx : Named.name x = n
    · have hpos : position? n (x :: xs) = some 0 := by simp [position?, List.findIdx?_cons, hx]
      rw [find?_cons_self hx, hpos]
      rfl
    · have hpos : position? n (x :: xs) = (position? n xs).map (· + 1) := by
        simp [position?, List.findIdx?_cons, hx]
      rw [find?_cons_of_ne hx, hpos, ← ih]
      cases position? n xs <;> rfl

/-- Adding a thing adds it and nothing else. -/
theorem mem_insert {x y : α} {xs : List α} : y ∈ insert x xs ↔ y = x ∨ y ∈ xs := by
  induction xs with
  | nil => simp [insert]
  | cons z zs ih =>
    simp only [insert]
    split
    · simp
    · simp only [List.mem_cons, ih]
      exact or_left_comm

/-- What is there after a removal was there before. -/
theorem erase_sublist (n : String) (xs : List α) : (erase n xs).Sublist xs := by
  induction xs with
  | nil => exact .slnil
  | cons x xs ih =>
    simp only [erase]
    split
    · exact List.sublist_cons_self x xs
    · exact ih.cons_cons x

/-- What is there after a replacement was there before, or is what took a place. -/
theorem mem_of_mem_replace {n : String} {y z : α} {xs : List α} (h : z ∈ replace n y xs) :
    z = y ∨ z ∈ xs := by
  induction xs with
  | nil => exact .inr h
  | cons x xs ih =>
    simp only [replace] at h
    split at h
    · rcases List.mem_cons.1 h with h | h
      · exact .inl h
      · exact .inr (List.mem_cons_of_mem _ h)
    · rcases List.mem_cons.1 h with h | h
      · exact .inr (h ▸ List.mem_cons_self ..)
      · exact (ih h).imp_right (List.mem_cons_of_mem _)

/-- Replacing a thing by one of the same name changes no name. -/
theorem names_replace {n : String} {y : α} (hy : Named.name y = n) (xs : List α) :
    names (replace n y xs) = names xs := by
  induction xs with
  | nil => rfl
  | cons x xs ih =>
    simp only [replace]
    split
    · next h => simp only [names, List.map_cons, hy, eq_of_beq h]
    · simp only [names, List.map_cons, List.cons.injEq, true_and] at ih ⊢
      exact ih

/-- A function that does not tell what took a place from what had it gives the same list. -/
theorem map_replace {n : String} {x y : α} {f : α → β} {xs : List α} (h : find? n xs = some x)
    (hf : f y = f x) : (replace n y xs).map f = xs.map f := by
  induction xs with
  | nil => rfl
  | cons z zs ih =>
    simp only [replace]
    split
    · next hz =>
      rw [find?_cons_self (eq_of_beq hz)] at h
      rw [List.map_cons, List.map_cons, hf, Option.some.inj h]
    · next hz =>
      rw [find?_cons_of_ne fun e => hz (beq_iff_eq.2 e)] at h
      rw [List.map_cons, List.map_cons, ih h]

/-! ### What is found after an operation -/

/-- A new thing is found. -/
theorem find?_insert_self {x : α} {xs : List α} (h : find? (Named.name x) xs = none) :
    find? (Named.name x) (insert x xs) = some x := by
  induction xs with
  | nil => exact find?_cons_self rfl
  | cons y ys ih =>
    have hne := find?_eq_none.1 h y (List.mem_cons_self ..)
    simp only [insert]
    split
    · exact find?_cons_self rfl
    · rw [find?_cons_of_ne hne] at h ⊢
      exact ih h

/-- Adding a thing hides no other. -/
theorem find?_insert_of_ne {n : String} {x : α} (h : Named.name x ≠ n) (xs : List α) :
    find? n (insert x xs) = find? n xs := by
  induction xs with
  | nil => exact find?_cons_of_ne h
  | cons y ys ih =>
    simp only [insert]
    split
    · exact find?_cons_of_ne h
    · by_cases hy : Named.name y = n
      · rw [find?_cons_self hy, find?_cons_self hy]
      · rw [find?_cons_of_ne hy, find?_cons_of_ne hy, ih]

/-- Removing a thing hides no other. -/
theorem find?_erase_of_ne {m n : String} (h : m ≠ n) (xs : List α) :
    find? n (erase m xs) = find? n xs := by
  induction xs with
  | nil => rfl
  | cons x xs ih =>
    simp only [erase]
    split
    · next hx => rw [find?_cons_of_ne (eq_of_beq hx ▸ h)]
    · by_cases hn : Named.name x = n
      · rw [find?_cons_self hn, find?_cons_self hn]
      · rw [find?_cons_of_ne hn, find?_cons_of_ne hn, ih]

/-- What takes the place of a thing is found under its name. -/
theorem find?_replace_self {n : String} {y : α} {xs : List α} (hy : Named.name y = n)
    (h : (find? n xs).isSome) : find? n (replace n y xs) = some y := by
  induction xs with
  | nil => simp [find?] at h
  | cons x xs ih =>
    simp only [replace]
    split
    · exact find?_cons_self hy
    · next hx =>
      have hne : Named.name x ≠ n := fun e => hx (beq_iff_eq.2 e)
      rw [find?_cons_of_ne hne] at h ⊢
      exact ih h

/-- Replacing a thing hides no other. -/
theorem find?_replace_of_ne {m n : String} {y : α} (hy : Named.name y = m) (h : m ≠ n)
    (xs : List α) : find? n (replace m y xs) = find? n xs := by
  induction xs with
  | nil => rfl
  | cons x xs ih =>
    simp only [replace]
    split
    · next hx => rw [find?_cons_of_ne (hy ▸ h), find?_cons_of_ne (eq_of_beq hx ▸ h)]
    · by_cases hn : Named.name x = n
      · rw [find?_cons_self hn, find?_cons_self hn]
      · rw [find?_cons_of_ne hn, find?_cons_of_ne hn, ih]

/-! ### Sorted rosters -/

/-- A thing that is found stands somewhere, after things of other names. There it is replaced and
removed. -/
theorem exists_eq_append_of_find?_eq_some {n : String} {x : α} {xs : List α}
    (h : find? n xs = some x) :
    ∃ before after, xs = before ++ x :: after ∧ (∀ z ∈ before, Named.name z ≠ n) ∧
      (∀ y, replace n y xs = before ++ y :: after) ∧ erase n xs = before ++ after := by
  induction xs with
  | nil => cases h
  | cons z zs ih =>
    by_cases hz : Named.name z = n
    · obtain rfl := Option.some.inj ((find?_cons_self hz).symm.trans h)
      exact ⟨[], zs, rfl, nofun, fun y => by simp [replace, hz], by simp [erase, hz]⟩
    · rw [find?_cons_of_ne hz] at h
      obtain ⟨before, after, hsplit, hne, hreplace, herase⟩ := ih h
      refine ⟨z :: before, after, by rw [hsplit, List.cons_append], ?_, fun y => ?_, ?_⟩
      · exact List.forall_mem_cons.2 ⟨hz, hne⟩
      · simp [replace, hz, hreplace y]
      · simp [erase, hz, herase]

/-- A thing that takes its own place changes nothing. -/
theorem replace_self {n : String} {x : α} {xs : List α} (h : find? n xs = some x) :
    replace n x xs = xs := by
  obtain ⟨before, after, hsplit, -, hreplace, -⟩ := exists_eq_append_of_find?_eq_some h
  rw [hreplace x, hsplit]

/-- What stands before something has another name. -/
theorem ne_of_lt {x y : α} (h : Named.name x < Named.name y) : Named.name x ≠ Named.name y :=
  fun hname => String.lt_irrefl _ (hname ▸ h)

namespace Sorted

/-- In a sorted roster a name leads to the one thing that has it. -/
theorem find?_eq_some_iff {xs : List α} (h : Sorted xs) {n : String} {x : α} :
    find? n xs = some x ↔ x ∈ xs ∧ Named.name x = n := by
  refine ⟨fun hf => ⟨mem_of_find?_eq_some hf, name_of_find?_eq_some hf⟩, ?_⟩
  rintro ⟨hx, hn⟩
  induction xs with
  | nil => simp at hx
  | cons y ys ih =>
    obtain ⟨hy, hys⟩ := List.pairwise_cons.1 h
    rcases List.mem_cons.1 hx with rfl | hx
    · exact find?_cons_self hn
    · have hne : Named.name y ≠ n := fun e => String.lt_irrefl _ (e ▸ hn ▸ hy x hx)
      rw [find?_cons_of_ne hne, ih hys hx]

/-- One thing of a sorted roster has its name. -/
theorem filter_name {xs : List α} (h : Sorted xs) {x : α} (hx : x ∈ xs) :
    xs.filter (fun y => Named.name y = Named.name x) = [x] := by
  induction xs with
  | nil => cases hx
  | cons y ys ih =>
    obtain ⟨hy, hys⟩ := List.pairwise_cons.1 h
    rcases List.mem_cons.1 hx with rfl | hx
    · have hrest : ys.filter (fun z => Named.name z = Named.name x) = [] := by
        refine List.filter_eq_nil_iff.2 fun z hz hname => ?_
        have hlt := hy z hz
        rw [of_decide_eq_true hname] at hlt
        exact String.lt_irrefl _ hlt
      rw [List.filter_cons_of_pos (by simp), hrest]
    · have hne : Named.name y ≠ Named.name x := fun e => String.lt_irrefl _ (e ▸ hy x hx)
      rw [List.filter_cons_of_neg (by simpa using hne), ih hys hx]

/-- What is left without a thing of a sorted roster has other names. -/
theorem name_ne_of_split {before after : List α} {x : α} (h : Sorted (before ++ x :: after)) :
    ∀ z ∈ before ++ after, Named.name z ≠ Named.name x := by
  obtain ⟨-, hx, hbefore⟩ := List.pairwise_append.1 h
  intro z hz
  rcases List.mem_append.1 hz with hz | hz
  · exact ne_of_lt (hbefore z hz x (List.mem_cons_self ..))
  · exact (ne_of_lt ((List.pairwise_cons.1 hx).1 z hz)).symm

/-- What a name leads to in another roster that looks the same looks the same. -/
theorem exists_find?_of_map_eq {xs ys : List α} (h : Sorted ys) {f : α → β}
    (hname : ∀ x y, f x = f y → Named.name x = Named.name y) (hmap : xs.map f = ys.map f) {y : α}
    (hy : y ∈ ys) : ∃ x, find? (Named.name y) xs = some x ∧ f x = f y := by
  have hfound : find? (Named.name y) ys = some y := h.find?_eq_some_iff.2 ⟨hy, rfl⟩
  have hmapped := map_find?_of_map_eq hname hmap (Named.name y)
  rw [hfound] at hmapped
  exact Option.map_eq_some_iff.1 hmapped

/-- Rosters with the same names look the same if what their names lead to does. -/
theorem map_eq_of_find? {xs ys : List α} (h : Sorted ys) (hnames : names xs = names ys) {f : α → β}
    (hfind : ∀ y ∈ ys, ∃ x, find? (Named.name y) xs = some x ∧ f x = f y) :
    xs.map f = ys.map f := by
  induction ys generalizing xs with
  | nil => rw [List.map_eq_nil_iff.1 hnames]
  | cons y ys ih =>
    obtain ⟨hy, hys⟩ := List.pairwise_cons.1 h
    cases xs with
    | nil => cases hnames
    | cons x xs =>
      obtain ⟨hx, hxs⟩ := List.cons.inj hnames
      obtain ⟨x', hfound, hf⟩ := hfind y (List.mem_cons_self ..)
      rw [find?_cons_self hx] at hfound
      obtain rfl := Option.some.inj hfound
      rw [List.map_cons, List.map_cons, hf]
      refine congrArg (f y :: ·) (ih hys hxs fun z hz => ?_)
      have hne : Named.name x ≠ Named.name z := by
        rw [hx]
        exact fun e => String.lt_irrefl _ (e ▸ hy z hz)
      obtain ⟨x', hfound, hf⟩ := hfind z (List.mem_cons_of_mem _ hz)
      rw [find?_cons_of_ne hne] at hfound
      exact ⟨x', hfound, hf⟩

/-- A new name keeps a roster sorted. -/
theorem insert {x : α} {xs : List α} (h : Sorted xs) (hx : find? (Named.name x) xs = none) :
    Sorted (insert x xs) := by
  induction xs with
  | nil => exact List.pairwise_singleton ..
  | cons y ys ih =>
    obtain ⟨hy, hys⟩ := List.pairwise_cons.1 h
    have hnone := find?_eq_none.1 hx
    simp only [Roster.insert]
    split
    · next hlt =>
      refine List.pairwise_cons.2 ⟨fun z hz => ?_, h⟩
      rcases List.mem_cons.1 hz with rfl | hz
      · exact hlt
      · exact String.lt_trans hlt (hy z hz)
    · next hle =>
      refine List.pairwise_cons.2 ⟨fun z hz => ?_, ih hys ?_⟩
      · rcases mem_insert.1 hz with rfl | hz
        · exact Std.lt_of_le_of_ne (String.not_lt.1 hle) (hnone y (List.mem_cons_self ..))
        · exact hy z hz
      · exact find?_eq_none.2 fun z hz => hnone z (List.mem_cons_of_mem _ hz)

/-- A removal keeps a roster sorted. -/
theorem erase {xs : List α} (h : Sorted xs) (n : String) : Sorted (erase n xs) :=
  List.Pairwise.sublist (erase_sublist n xs) h

/-- Only the names count. -/
theorem of_names_eq {xs ys : List α} (h : Sorted xs) (hnames : names ys = names xs) :
    Sorted ys := by
  have iff (zs : List α) : Sorted zs ↔ (names zs).Pairwise (· < ·) := List.pairwise_map.symm
  rw [iff, hnames, ← iff]
  exact h

/-- A replacement by a thing of the same name keeps a roster sorted. -/
theorem replace {xs : List α} (h : Sorted xs) {n : String} {y : α} (hy : Named.name y = n) :
    Sorted (replace n y xs) :=
  h.of_names_eq (names_replace hy xs)

/-- A thing that was removed from a sorted roster is not found any more. -/
theorem find?_erase_self {xs : List α} (h : Sorted xs) (n : String) :
    find? n (Roster.erase n xs) = none := by
  induction xs with
  | nil => rfl
  | cons x xs ih =>
    obtain ⟨hx, hxs⟩ := List.pairwise_cons.1 h
    simp only [Roster.erase]
    split
    · next hn =>
      refine find?_eq_none.2 fun y hy e => String.lt_irrefl n ?_
      have hlt := hx y hy
      rwa [e, eq_of_beq hn] at hlt
    · next hn =>
      have hne : Named.name x ≠ n := fun e => hn (beq_iff_eq.2 e)
      rw [find?_cons_of_ne hne, ih hxs]

end Sorted

end Roster

end TypedConfig
