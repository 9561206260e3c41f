/-!
# Blank characters

The characters that Unicode lists under `White_Space`, which is the class that decides whether a
name is empty and what may stand before a version number. The class is wider than the one that
core knows.

Spaces alone, without the other blanks, are dropped around names and values. `dropSpacesRight` takes
off the spaces at the end and nothing else (`exists_eq_dropSpacesRight_append`), and all of them
(`getLast?_dropSpacesRight`).
-/

namespace TypedConfig.Text

/-- The characters with the Unicode property `White_Space`: the five controls from tab to carriage
return, the next-line control, and the space separators with the line and paragraph separators. -/
def isBlank (c : Char) : Bool :=
  let n := c.toNat
  (0x09 ≤ n && n ≤ 0x0D) || n == 0x20 || n == 0x85 || n == 0xA0 || n == 0x1680 ||
    (0x2000 ≤ n && n ≤ 0x200A) || n == 0x2028 || n == 0x2029 || n == 0x202F || n == 0x205F ||
    n == 0x3000

/-- A text without a character other than blanks; the empty text is one. -/
def isBlankText (s : String) : Bool :=
  s.toList.all isBlank

/-- A text without the blanks that it starts with. -/
def dropBlanks (cs : List Char) : List Char :=
  cs.dropWhile isBlank

/-- A text without the spaces that it starts with; other blanks stay. -/
def dropSpaces (cs : List Char) : List Char :=
  cs.dropWhile (· == ' ')

/-- A text without the spaces that it ends with; other blanks stay. -/
def dropSpacesRight : List Char → List Char
  | [] => []
  | c :: cs =>
    match dropSpacesRight cs with
    | [] => if c == ' ' then [] else [c]
    | d :: ds => c :: d :: ds

/-- There is a space less. -/
theorem length_dropSpaces_lt {cs : List Char} (h : cs.head? = some ' ') :
    (dropSpaces cs).length < cs.length := by
  obtain ⟨rest, rfl⟩ := List.head?_eq_some_iff.1 h
  have hle : (rest.dropWhile (· == ' ')).length ≤ rest.length :=
    (List.dropWhile_suffix _).length_le
  exact Nat.lt_succ_of_le hle

/-- Something is left of a text that does not end with a space. -/
theorem dropSpaces_ne_nil {cs : List Char} (hne : cs ≠ []) (hlast : cs.getLast? ≠ some ' ') :
    dropSpaces cs ≠ [] := by
  induction cs with
  | nil => exact absurd rfl hne
  | cons c cs ih =>
    unfold dropSpaces at ih ⊢
    rw [List.dropWhile_cons]
    split
    · next hspace =>
      cases cs with
      | nil => exact absurd (congrArg some (eq_of_beq hspace)) hlast
      | cons d cs =>
        rw [List.getLast?_cons_cons] at hlast
        exact ih (List.cons_ne_nil _ _) hlast
    · exact List.cons_ne_nil _ _

/-- Where something is left of a text, what is put at its end is left too. -/
theorem dropSpaces_append {cs : List Char} (h : dropSpaces cs ≠ []) (tail : List Char) :
    dropSpaces (cs ++ tail) = dropSpaces cs ++ tail := by
  unfold dropSpaces at h ⊢
  rw [List.dropWhile_append, if_neg (by simpa using h)]

/-- Spaces at the end of a text make no difference. -/
theorem dropSpacesRight_append_replicate (cs : List Char) (n : Nat) :
    dropSpacesRight (cs ++ List.replicate n ' ') = dropSpacesRight cs := by
  induction cs with
  | nil =>
    induction n with
    | zero => rfl
    | succ n ih =>
      rw [List.nil_append] at ih ⊢
      simp [List.replicate_succ, dropSpacesRight, ih]
  | cons c cs ih => simp only [List.cons_append, dropSpacesRight, ih]

/-- Only spaces are taken off. -/
theorem exists_eq_dropSpacesRight_append (cs : List Char) :
    ∃ n, cs = dropSpacesRight cs ++ List.replicate n ' ' := by
  induction cs with
  | nil => exact ⟨0, rfl⟩
  | cons c cs ih =>
    obtain ⟨n, hn⟩ := ih
    simp only [dropSpacesRight]
    split
    · next hd =>
      rw [hd, List.nil_append] at hn
      split
      · next hc => exact ⟨n + 1, by rw [hn, eq_of_beq hc]; rfl⟩
      · exact ⟨n, by rw [← hn]; rfl⟩
    · next d ds hd =>
      rw [hd] at hn
      exact ⟨n, by rw [List.cons_append, ← hn]⟩

/-- Without the spaces at its end a text is the same up to there. -/
theorem dropSpacesRight_prefix (cs : List Char) : dropSpacesRight cs <+: cs := by
  obtain ⟨n, hn⟩ := exists_eq_dropSpacesRight_append cs
  exact ⟨_, hn.symm⟩

/-- The rest does not end with a space. -/
theorem getLast?_dropSpacesRight (cs : List Char) : (dropSpacesRight cs).getLast? ≠ some ' ' := by
  induction cs with
  | nil => simp [dropSpacesRight]
  | cons c cs ih =>
    simp only [dropSpacesRight]
    split
    · split <;> simp_all
    · next d ds hd =>
      rw [hd] at ih
      simpa using ih

/-- A text that does not end with a space stays as it is. -/
theorem dropSpacesRight_of_getLast? {cs : List Char} (h : cs.getLast? ≠ some ' ') :
    dropSpacesRight cs = cs := by
  obtain ⟨n, hn⟩ := exists_eq_dropSpacesRight_append cs
  cases n with
  | zero => simpa using hn.symm
  | succ n =>
    rw [hn, List.replicate_succ', ← List.append_assoc] at h
    simp at h

/-- Spaces at the end of a text are dropped from its start only if there is nothing else in it. -/
theorem exists_dropSpaces_append_replicate (cs : List Char) (n : Nat) :
    ∃ m, dropSpaces (cs ++ List.replicate n ' ') = dropSpaces cs ++ List.replicate m ' ' := by
  unfold dropSpaces
  rw [List.dropWhile_append]
  split
  · next hnil =>
    refine ⟨0, ?_⟩
    rw [List.isEmpty_iff.1 hnil]
    simp
  · exact ⟨n, rfl⟩

end TypedConfig.Text
