/-!
# Cutting texts

Taking a text apart at the first or last occurrence of a pattern, and at every occurrence of a
character. Texts are lists of characters here, so that each function is a recursion on the text.

A cut loses nothing but the pattern (`eq_append_of_cut?`), every text that holds the pattern is cut
(`exists_cut?_append`), and what is put at the end of a text does not move the cut (`cut?_append`).
A cut at a single character is the one at its first occurrence (`cut?_singleton_append`,
`not_mem_of_cut?_singleton`). The parts of a split do not hold the separator
(`not_mem_of_mem_splitAt`), and what was put together is split again (`splitAt_intercalate`).
-/

namespace TypedConfig.Text

/-- What stands before and after the first occurrence of a pattern, which itself is in neither. -/
def cut? (pattern : List Char) : List Char → Option (List Char × List Char)
  | [] => if pattern.isEmpty then some ([], []) else none
  | c :: cs =>
    match pattern.isPrefixOf? (c :: cs) with
    | some rest => some ([], rest)
    | none => (cut? pattern cs).map fun p => (c :: p.1, p.2)

/-- A pattern starts a text when its first character does and its rest starts what follows. -/
theorem isPrefixOf?_cons_cons (c d : Char) (pattern s : List Char) :
    (c :: pattern).isPrefixOf? (d :: s) = if c == d then pattern.isPrefixOf? s else none :=
  rfl

/-- What a pattern is taken off from starts with it. -/
theorem eq_append_of_isPrefixOf? {pattern s rest : List Char}
    (h : pattern.isPrefixOf? s = some rest) : s = pattern ++ rest := by
  induction pattern generalizing s with
  | nil => exact Option.some.inj h
  | cons c pattern ih =>
    cases s with
    | nil => cases h
    | cons d s =>
      rw [isPrefixOf?_cons_cons] at h
      split at h
      · next hc => rw [ih h, eq_of_beq hc, List.cons_append]
      · contradiction

/-- A cut takes the pattern out and keeps the rest. -/
theorem eq_append_of_cut? {pattern s before after : List Char}
    (h : cut? pattern s = some (before, after)) : s = before ++ pattern ++ after := by
  induction s generalizing before with
  | nil =>
    simp only [cut?] at h
    split at h
    · next hp =>
      obtain ⟨rfl, rfl⟩ := by simpa using h
      simpa using hp
    · contradiction
  | cons c cs ih =>
    simp only [cut?] at h
    split at h
    · next rest hr =>
      obtain ⟨rfl, rfl⟩ := by simpa using h
      simpa using eq_append_of_isPrefixOf? hr
    · obtain ⟨⟨b, a⟩, hb, hab⟩ := Option.map_eq_some_iff.1 h
      obtain ⟨rfl, rfl⟩ := by simpa using hab
      rw [ih hb]
      simp

/-- A pattern starts what it stands in front of. -/
theorem isPrefixOf?_append_self (pattern t : List Char) :
    pattern.isPrefixOf? (pattern ++ t) = some t := by
  induction pattern with
  | nil => rfl
  | cons c pattern ih =>
    rw [List.cons_append, isPrefixOf?_cons_cons, if_pos (beq_self_eq_true c), ih]

/-- A text that holds a pattern is cut, and not behind that place. -/
theorem exists_cut?_append (before pattern after : List Char) :
    ∃ b a, cut? pattern (before ++ pattern ++ after) = some (b, a) ∧ b.length ≤ before.length := by
  induction before with
  | nil =>
    rw [List.nil_append]
    cases htext : pattern ++ after with
    | nil => exact ⟨[], [], by simp [cut?, (List.append_eq_nil_iff.1 htext).1], Nat.le_refl _⟩
    | cons c cs =>
      have hprefix := isPrefixOf?_append_self pattern after
      rw [htext] at hprefix
      refine ⟨[], after, ?_, Nat.le_refl _⟩
      rw [cut?, hprefix]
  | cons c before ih =>
    obtain ⟨b, a, hcut, hle⟩ := ih
    rw [List.cons_append, List.cons_append, cut?]
    split
    · next rest _ => exact ⟨[], rest, rfl, Nat.zero_le _⟩
    · refine ⟨c :: b, a, ?_, Nat.succ_le_succ hle⟩
      rw [hcut]
      rfl

/-- A pattern does not stand in what comes before its first occurrence. -/
theorem not_isInfix_of_cut? {pattern s before after : List Char} (hpattern : pattern ≠ [])
    (h : cut? pattern s = some (before, after)) : ¬ pattern <:+: before := by
  rintro ⟨x, y, rfl⟩
  have hs : s = x ++ pattern ++ (y ++ pattern ++ after) := by
    rw [eq_append_of_cut? h]
    simp only [List.append_assoc]
  obtain ⟨b, a, hcut, hle⟩ := exists_cut?_append x pattern (y ++ pattern ++ after)
  rw [← hs, h] at hcut
  obtain ⟨rfl, -⟩ := Prod.mk.inj (Option.some.inj hcut)
  have hpos := List.length_pos_iff.2 hpattern
  simp only [List.length_append] at hle
  omega

/-- A text that is not cut at a pattern does not have it. -/
theorem not_isInfix_of_cut?_eq_none {pattern s : List Char} (h : cut? pattern s = none) :
    ¬ pattern <:+: s := by
  rintro ⟨x, y, rfl⟩
  obtain ⟨b, a, hcut, -⟩ := exists_cut?_append x pattern y
  rw [h] at hcut
  cases hcut

/-- A text that a pattern is long enough for starts with it or not, whatever follows. -/
theorem isPrefixOf?_append {pattern s : List Char} (h : pattern.length ≤ s.length)
    (t : List Char) :
    pattern.isPrefixOf? (s ++ t) = (pattern.isPrefixOf? s).map (· ++ t) := by
  induction pattern generalizing s with
  | nil => rfl
  | cons c pattern ih =>
    cases s with
    | nil => simp at h
    | cons d s =>
      rw [List.cons_append, isPrefixOf?_cons_cons, isPrefixOf?_cons_cons]
      split
      · exact ih (Nat.le_of_succ_le_succ h)
      · rfl

/-- The first occurrence of a pattern stays where it is, whatever follows. -/
theorem cut?_append {pattern s before after : List Char}
    (h : cut? pattern s = some (before, after)) (t : List Char) :
    cut? pattern (s ++ t) = some (before, after ++ t) := by
  -- A text that is cut is at least as long as the pattern.
  have hlength {s before after : List Char} (h : cut? pattern s = some (before, after)) :
      pattern.length ≤ s.length := by
    rw [eq_append_of_cut? h]
    simp only [List.length_append]
    omega
  induction s generalizing before with
  | nil =>
    simp only [cut?] at h
    split at h
    · next hp =>
      obtain ⟨rfl, rfl⟩ := by simpa using h
      rw [List.isEmpty_iff.1 hp]
      cases t <;> rfl
    · contradiction
  | cons c cs ih =>
    have hprefix := isPrefixOf?_append (hlength h) t
    simp only [cut?] at h
    rw [List.cons_append] at hprefix ⊢
    rw [cut?, hprefix]
    split at h
    · next rest hr =>
      obtain ⟨rfl, rfl⟩ := by simpa using h
      rw [hr]
      rfl
    · next hr =>
      obtain ⟨⟨b, a⟩, hb, hab⟩ := Option.map_eq_some_iff.1 h
      obtain ⟨rfl, rfl⟩ := by simpa using hab
      rw [hr, ih hb]
      rfl

/-- Whether a text is cut at its first character. -/
theorem cut?_singleton_cons (c d : Char) (s : List Char) :
    cut? [c] (d :: s) =
      if c = d then some ([], s) else (cut? [c] s).map fun p => (d :: p.1, p.2) := by
  rw [cut?, isPrefixOf?_cons_cons]
  by_cases h : c = d
  · rw [if_pos h, if_pos (beq_iff_eq.2 h)]
    rfl
  · rw [if_neg h, if_neg (mt eq_of_beq h)]

/-- A text is cut at the first occurrence of a character. -/
theorem cut?_singleton_append {c : Char} {before : List Char} (h : c ∉ before)
    (after : List Char) : cut? [c] (before ++ c :: after) = some (before, after) := by
  induction before with
  | nil => rw [List.nil_append, cut?_singleton_cons, if_pos rfl]
  | cons d before ih =>
    have hd : c ≠ d := fun e => h (e ▸ List.mem_cons_self ..)
    have hb : c ∉ before := fun m => h (List.mem_cons_of_mem _ m)
    rw [List.cons_append, cut?_singleton_cons, if_neg hd, ih hb, Option.map_some]

/-- Before the place where a text is cut at a character, that character does not occur. -/
theorem not_mem_of_cut?_singleton {c : Char} {s before after : List Char}
    (h : cut? [c] s = some (before, after)) : c ∉ before := by
  induction s generalizing before with
  | nil => simp [cut?] at h
  | cons d cs ih =>
    rw [cut?_singleton_cons] at h
    by_cases hd : c = d
    · rw [if_pos hd] at h
      obtain ⟨rfl, rfl⟩ := by simpa using h
      simp
    · rw [if_neg hd] at h
      obtain ⟨⟨b, a⟩, hb, hab⟩ := Option.map_eq_some_iff.1 h
      obtain ⟨rfl, rfl⟩ := by simpa using hab
      exact fun m => (List.mem_cons.1 m).elim hd (ih hb)

/-- `cut?` on strings. -/
def cutString? (pattern s : String) : Option (String × String) :=
  (cut? pattern.toList s.toList).map fun p => (String.ofList p.1, String.ofList p.2)

/-- A string that is cut is what stands before the pattern, the pattern, and what follows it. -/
theorem eq_append_of_cutString? {pattern s before after : String}
    (h : cutString? pattern s = some (before, after)) : s = before ++ pattern ++ after := by
  obtain ⟨⟨b, a⟩, hcut, heq⟩ := Option.map_eq_some_iff.1 h
  obtain ⟨rfl, rfl⟩ := Prod.mk.inj heq
  apply String.toList_inj.1
  simpa using eq_append_of_cut? hcut

/-- A string that holds the pattern is cut, there or before. -/
theorem exists_cutString?_append (before pattern after : String) :
    ∃ b a, cutString? pattern (before ++ pattern ++ after) = some (b, a) ∧
      b.length ≤ before.length := by
  obtain ⟨b, a, hcut, hle⟩ := exists_cut?_append before.toList pattern.toList after.toList
  refine ⟨String.ofList b, String.ofList a, ?_, ?_⟩
  · rw [cutString?, String.toList_append, String.toList_append, hcut]
    rfl
  · rwa [String.length_ofList, ← String.length_toList]

/-- What stands after the last occurrence of a pattern, or the whole text without one. -/
def afterLast (pattern : List Char) : List Char → List Char
  | [] => []
  | c :: cs =>
    if (cut? pattern cs).isSome then afterLast pattern cs
    else ((cut? pattern (c :: cs)).map (·.2)).getD (c :: cs)

/-- What follows a pattern that does not come again follows its last occurrence. -/
theorem afterLast_append {pattern after : List Char} (hpattern : pattern ≠ [])
    (hlast : cut? pattern (pattern.tail ++ after) = none) (before : List Char) :
    afterLast pattern (before ++ pattern ++ after) = after := by
  induction before with
  | nil =>
    obtain ⟨c, cs, rfl⟩ := List.exists_cons_of_ne_nil hpattern
    rw [List.tail_cons] at hlast
    have hcut : cut? (c :: cs) (c :: (cs ++ after)) = some ([], after) := by
      rw [cut?, ← List.cons_append, isPrefixOf?_append_self]
    rw [List.nil_append, List.cons_append, afterLast, hlast, hcut]
    rfl
  | cons c before ih =>
    obtain ⟨b, a, hcut, -⟩ := exists_cut?_append before pattern after
    rw [List.cons_append, List.cons_append, afterLast, hcut]
    exact ih

/-- The parts between the occurrences of a separator, one more than there are occurrences. -/
def splitAt (separator : Char) : List Char → List (List Char)
  | [] => [[]]
  | c :: cs =>
    if c == separator then [] :: splitAt separator cs
    else match splitAt separator cs with
      | part :: parts => (c :: part) :: parts
      | [] => [[c]]

/-- There is always a part. -/
theorem splitAt_ne_nil (separator : Char) (s : List Char) : splitAt separator s ≠ [] := by
  cases s with
  | nil => simp [splitAt]
  | cons c cs =>
    simp only [splitAt]
    split
    · simp
    · split <;> simp

/-- No part holds the separator. -/
theorem not_mem_of_mem_splitAt {separator : Char} {s part : List Char}
    (h : part ∈ splitAt separator s) : separator ∉ part := by
  induction s generalizing part with
  | nil => simp_all [splitAt]
  | cons c cs ih =>
    simp only [splitAt] at h
    split at h
    · rcases List.mem_cons.1 h with rfl | h
      · simp
      · exact ih h
    · next hc =>
      have hne : separator ≠ c := fun e => hc (beq_iff_eq.2 e.symm)
      cases hp : splitAt separator cs with
      | nil => exact absurd hp (splitAt_ne_nil separator cs)
      | cons q qs =>
        rw [hp] at h ih
        rcases List.mem_cons.1 h with rfl | h
        · exact fun m => (List.mem_cons.1 m).elim hne (ih (List.mem_cons_self ..))
        · exact ih (List.mem_cons_of_mem _ h)

/-- A text without the separator is one part. -/
theorem splitAt_of_not_mem {separator : Char} {s : List Char} (h : separator ∉ s) :
    splitAt separator s = [s] := by
  induction s with
  | nil => rfl
  | cons c cs ih =>
    have hne : c ≠ separator := fun e => h (e ▸ List.mem_cons_self ..)
    simp [splitAt, hne, ih fun m => h (List.mem_cons_of_mem _ m)]

/-- A text is split at a separator behind a part without one. -/
theorem splitAt_append_cons {separator : Char} {part : List Char} (h : separator ∉ part)
    (rest : List Char) :
    splitAt separator (part ++ separator :: rest) = part :: splitAt separator rest := by
  induction part with
  | nil => simp [splitAt]
  | cons c part ih =>
    have hne : c ≠ separator := fun e => h (e ▸ List.mem_cons_self ..)
    simp [splitAt, hne, ih fun m => h (List.mem_cons_of_mem _ m)]

/-- Parts without the separator are the parts of what they make with separators between them. -/
theorem splitAt_intercalate {separator : Char} {parts : List (List Char)} (hne : parts ≠ [])
    (h : ∀ part ∈ parts, separator ∉ part) :
    splitAt separator ([separator].intercalate parts) = parts := by
  induction parts with
  | nil => exact absurd rfl hne
  | cons part parts ih =>
    have hpart := h part (List.mem_cons_self ..)
    cases parts with
    | nil => simpa using splitAt_of_not_mem hpart
    | cons q qs =>
      have hrest := ih (List.cons_ne_nil _ _) fun p hp => h p (List.mem_cons_of_mem _ hp)
      rw [List.intercalate_cons_cons, List.append_assoc, List.singleton_append,
        splitAt_append_cons hpart, hrest]

/-- With separators between them, parts make a text of their own characters and the separator. -/
theorem mem_of_mem_intercalate {separator c : Char} {parts : List (List Char)}
    (h : c ∈ [separator].intercalate parts) : c = separator ∨ ∃ part ∈ parts, c ∈ part := by
  induction parts with
  | nil => simp at h
  | cons part parts ih =>
    cases parts with
    | nil => exact .inr ⟨part, List.mem_cons_self .., by simpa using h⟩
    | cons q qs =>
      rw [List.intercalate_cons_cons, List.append_assoc, List.mem_append, List.mem_append] at h
      obtain h | h | h := h
      · exact .inr ⟨part, List.mem_cons_self .., h⟩
      · exact .inl (List.mem_singleton.1 h)
      · exact (ih h).imp_right fun ⟨p, hp, hc⟩ => ⟨p, List.mem_cons_of_mem _ hp, hc⟩

/-- What nonempty parts without the separator make does not end with it. -/
theorem exists_getLast?_intercalate {separator : Char} {parts : List (List Char)}
    (hne : parts ≠ []) (h : ∀ part ∈ parts, part ≠ [] ∧ separator ∉ part) :
    ∃ c, ([separator].intercalate parts).getLast? = some c ∧ c ≠ separator := by
  induction parts with
  | nil => exact absurd rfl hne
  | cons part parts ih =>
    obtain ⟨hpart, hseparator⟩ := h part (List.mem_cons_self ..)
    cases parts with
    | nil =>
      refine ⟨part.getLast hpart, by simp [List.getLast?_eq_some_getLast hpart], fun hc => ?_⟩
      exact hseparator (hc ▸ List.getLast_mem hpart)
    | cons q qs =>
      obtain ⟨c, hc, hne⟩ := ih (List.cons_ne_nil _ _) fun p hp => h p (List.mem_cons_of_mem _ hp)
      refine ⟨c, ?_, hne⟩
      rw [List.intercalate_cons_cons, List.getLast?_append, hc, Option.some_or]

/-- A text without the separator that is put at the end of another one goes to its last part. -/
theorem exists_splitAt_append (separator : Char) (s : List Char) :
    ∃ parts last, ∀ t, separator ∉ t → splitAt separator (s ++ t) = parts ++ [last ++ t] := by
  induction s with
  | nil => exact ⟨[], [], fun t ht => splitAt_of_not_mem ht⟩
  | cons c cs ih =>
    obtain ⟨parts, last, hsplit⟩ := ih
    by_cases hc : c = separator
    · refine ⟨[] :: parts, last, fun t ht => ?_⟩
      simp [splitAt, hc, hsplit t ht]
    · cases parts with
      | nil => exact ⟨[], c :: last, fun t ht => by simp [splitAt, hc, hsplit t ht]⟩
      | cons part parts =>
        exact ⟨(c :: part) :: parts, last, fun t ht => by simp [splitAt, hc, hsplit t ht]⟩

/-- `splitAt` on strings. -/
def splitString (separator : Char) (s : String) : List String :=
  (splitAt separator s.toList).map String.ofList

end TypedConfig.Text
