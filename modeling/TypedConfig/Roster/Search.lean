import TypedConfig.Roster
import TypedConfig.Text.Utf8

/-!
# Searching rosters

A name is looked up by halving: the name in the middle tells in which half to go on. The search
gives the position of the thing of that name or the position where it would have to be, and it gives
one of them rightly only as long as the roster is sorted (`Roster.Sorted.search_spec`). The order is
that of the names' bytes.
-/

namespace TypedConfig.Roster

variable {α : Type} [Named α]

/-- The search between two positions. A failure tells where a thing of the name would have to be. -/
def searchBetween (n : String) (xs : List α) (lo hi : Nat) (hhi : hi ≤ xs.length) :
    Except Nat Nat :=
  if hlt : lo < hi then
    let middle := lo + (hi - lo) / 2
    let x := xs[middle]
    if Named.name x < n then searchBetween n xs (middle + 1) hi hhi
    else if n < Named.name x then searchBetween n xs lo middle (by omega)
    else .ok middle
  else .error lo
termination_by hi - lo

/-- The search for a name. -/
def search (n : String) (xs : List α) : Except Nat Nat :=
  searchBetween n xs 0 xs.length (Nat.le_refl _)

/-- A name would have to stand at a position: what is before comes before it, and the rest after. -/
structure Gap (n : String) (xs : List α) (i : Nat) : Prop where
  before : ∀ x ∈ xs.take i, Named.name x < n
  after : ∀ x ∈ xs.drop i, n < Named.name x

/-- What a search has to give. -/
def Answers (n : String) (xs : List α) : Except Nat Nat → Prop
  | .ok i => ∃ x, xs[i]? = some x ∧ Named.name x = n
  | .error i => Gap n xs i

/-- A new thing goes into the gap of its name. -/
theorem insert_of_gap {x : α} {xs : List α} {i : Nat} (h : Gap (Named.name x) xs i) :
    insert x xs = xs.take i ++ x :: xs.drop i := by
  have insert_append (ys zs : List α) (hys : ∀ y ∈ ys, Named.name y < Named.name x)
      (hzs : ∀ z ∈ zs, Named.name x < Named.name z) : insert x (ys ++ zs) = ys ++ x :: zs := by
    induction ys with
    | nil =>
      cases zs with
      | nil => rfl
      | cons z zs => exact if_pos (hzs z (List.mem_cons_self ..))
    | cons y ys ih =>
      have hy : ¬ Named.name x < Named.name y :=
        fun hlt => String.lt_irrefl _ (String.lt_trans hlt (hys y (List.mem_cons_self ..)))
      simp only [List.cons_append, insert, if_neg hy]
      rw [ih fun w hw => hys w (List.mem_cons_of_mem _ hw)]
  have hinsert := insert_append (xs.take i) (xs.drop i) h.before h.after
  rwa [List.take_append_drop] at hinsert

/-- A name with a gap is nobody's. -/
theorem find?_of_gap {n : String} {xs : List α} {i : Nat} (h : Gap n xs i) : find? n xs = none := by
  refine find?_eq_none.2 fun x hx hn => ?_
  rw [← List.take_append_drop i xs] at hx
  rcases List.mem_append.1 hx with hx | hx
  · exact String.lt_irrefl n (hn ▸ h.before x hx)
  · exact String.lt_irrefl n (hn ▸ h.after x hx)

/-- All that is before a thing of a sorted roster compares with it, and all that is after it. -/
theorem Sorted.compare_getElem {xs : List α} (h : Sorted xs) {i : Nat} (hi : i < xs.length) :
    (∀ y ∈ xs.take i, Named.name y < Named.name xs[i]) ∧
      ∀ y ∈ xs.drop (i + 1), Named.name xs[i] < Named.name y := by
  have hsorted : Sorted (xs.take i ++ xs[i] :: xs.drop (i + 1)) := by
    rw [List.getElem_cons_drop, List.take_append_drop]
    exact h
  obtain ⟨-, hrest, hlow⟩ := List.pairwise_append.1 hsorted
  exact ⟨fun y hy => hlow y hy _ (List.mem_cons_self ..), (List.pairwise_cons.1 hrest).1⟩

/-- The search in a sorted roster gives a right answer, if what is left aside on both sides lies on
its side of the name. -/
theorem Sorted.searchBetween_spec {xs : List α} (h : Sorted xs) (n : String) (lo hi : Nat)
    (hhi : hi ≤ xs.length) (hle : lo ≤ hi) (hbefore : ∀ x ∈ xs.take lo, Named.name x < n)
    (hafter : ∀ x ∈ xs.drop hi, n < Named.name x) :
    Answers n xs (searchBetween n xs lo hi hhi) := by
  unfold searchBetween
  split
  · next hlt =>
    dsimp only
    have hmiddle : lo + (hi - lo) / 2 < xs.length := by omega
    obtain ⟨hlow, hhigh⟩ := h.compare_getElem hmiddle
    split
    · next hx =>
      -- All up to the middle comes before the name.
      refine searchBetween_spec h n _ hi hhi (by omega) (fun y hy => ?_) hafter
      rw [List.take_succ_eq_append_getElem hmiddle] at hy
      rcases List.mem_append.1 hy with hy | hy
      · exact String.lt_trans (hlow y hy) hx
      · rwa [List.mem_singleton.1 hy]
    · split
      · next hx =>
        -- All from the middle on comes after the name.
        refine searchBetween_spec h n lo _ _ (by omega) hbefore fun y hy => ?_
        rw [← List.getElem_cons_drop hmiddle] at hy
        rcases List.mem_cons.1 hy with rfl | hy
        · exact hx
        · exact String.lt_trans hx (hhigh y hy)
      · next hnot hnot' =>
        refine ⟨_, List.getElem?_eq_getElem hmiddle, ?_⟩
        exact String.le_antisymm (String.not_lt.1 hnot') (String.not_lt.1 hnot)
  · next hge =>
    obtain rfl : lo = hi := by omega
    exact ⟨hbefore, hafter⟩
termination_by hi - lo

/-- The search of a sorted roster answers for every name. -/
theorem Sorted.search_spec {xs : List α} (h : Sorted xs) (n : String) :
    Answers n xs (search n xs) := by
  refine h.searchBetween_spec n 0 xs.length _ (Nat.zero_le _) ?_ ?_
  · rw [List.take_zero]
    exact nofun
  · rw [List.drop_length]
    exact nofun

/-- A roster in the order of its names' bytes, with look-ups that find what is there. -/
structure InOrder (xs : List α) : Prop where
  /-- Each name comes before the next one, so no two are the same. -/
  increasing : xs.Pairwise fun x y =>
    Utf8.encode (Named.name x).toList < Utf8.encode (Named.name y).toList
  /-- A name leads to the one thing that has it. -/
  found : ∀ n x, find? n xs = some x ↔ x ∈ xs ∧ Named.name x = n
  /-- A search leads to what the name leads to. -/
  hit : ∀ n i, search n xs = .ok i → (find? n xs).isSome ∧ xs[i]? = find? n xs
  /-- A search that fails leads to where a thing of the name is put in. -/
  miss : ∀ n i, search n xs = .error i → find? n xs = none ∧
    ∀ x, Named.name x = n → insert x xs = xs.take i ++ x :: xs.drop i

/-- A sorted roster is in order. -/
theorem Sorted.inOrder {xs : List α} (h : Sorted xs) : InOrder xs where
  increasing := h.imp fun hlt => Utf8.encode_lt_encode_iff.2 (String.lt_iff.1 hlt)
  found n x := h.find?_eq_some_iff
  hit n i hi := by
    have hanswer := h.search_spec n
    rw [hi] at hanswer
    obtain ⟨x, hx, hn⟩ := hanswer
    have hfind : find? n xs = some x := h.find?_eq_some_iff.2 ⟨List.mem_of_getElem? hx, hn⟩
    rw [hfind, hx]
    exact ⟨rfl, rfl⟩
  miss n i hi := by
    have hanswer := h.search_spec n
    rw [hi] at hanswer
    have hgap : Gap n xs i := hanswer
    refine ⟨find?_of_gap hgap, fun x hx => ?_⟩
    subst hx
    exact insert_of_gap hgap

end TypedConfig.Roster
