import TypedConfig.Value

/-!
# Texts of offsets

A text asks for an offset if it starts with one of two marks, `++` and `--`; what follows is the
number. Every other text stands for a value itself (`Step.ofText_of_no_sign`). An offset is a number
of 64 bits, as is its negation in a text that counts down (`Step.mem_range_of_ofText`).
-/

namespace TypedConfig

/-- A number that a text of 64 bits gives lies in their range. -/
theorem Numeral.mem_range_of_int64? {text : String} {n : Int} (h : int64? text = some n) :
    int64Least ≤ n ∧ n ≤ int64Greatest := by
  unfold int64? integer? at h
  have hrange := (Option.filter_eq_some_iff.1 h).2
  simpa using hrange

namespace Step

/-- Whether a text starts with a mark. -/
def IsMarked (text : String) : Prop :=
  (∃ rest, text = "++" ++ rest) ∨ ∃ rest, text = "--" ++ rest

/-- A text has the mark of an offset if it starts with one of the two signs twice. -/
theorem isMarked_iff {text : String} :
    IsMarked text ↔ ['+', '+'] <+: text.toList ∨ ['-', '-'] <+: text.toList := by
  have starts (mark : String) : (∃ rest, text = mark ++ rest) ↔ mark.toList <+: text.toList := by
    constructor
    · rintro ⟨rest, rfl⟩
      exact ⟨rest.toList, by simp⟩
    · rintro ⟨rest, hrest⟩
      exact ⟨String.ofList rest, String.toList_inj.1 (by simp [hrest])⟩
  exact or_congr (starts "++") (starts "--")

/-- A text without a sign at its start stands for the value itself. -/
theorem ofText_of_no_sign {text : String}
    (h : ¬ (['+', '+'] <+: text.toList ∨ ['-', '-'] <+: text.toList)) :
    ofText text = .direct := by
  unfold ofText
  dsimp only
  split
  · next rest hcs => exact absurd (.inl ⟨rest, hcs.symm⟩) h
  · next rest hcs => exact absurd (.inr ⟨rest, hcs.symm⟩) h
  · rfl

/-- What follows `++` is the number. -/
theorem ofText_increase (rest : String) :
    ofText ("++" ++ rest) = ((Numeral.int64? rest).map .offset).getD .malformed := by
  have hchars : ("++" ++ rest).toList = '+' :: '+' :: rest.toList := by simp
  unfold ofText
  rw [hchars]
  rfl

/-- What follows `--` is the negation of the number, which has to be one of 64 bits too. -/
theorem ofText_decrease (rest : String) :
    ofText ("--" ++ rest) = ((((Numeral.int64? rest).map (- ·)).filter
      (· ≤ Numeral.int64Greatest)).map .offset).getD .malformed := by
  have hchars : ("--" ++ rest).toList = '-' :: '-' :: rest.toList := by simp
  unfold ofText
  rw [hchars]
  rfl

/-- A text stands for the value itself if it has no mark, and never with one, whatever follows. -/
theorem ofText_eq_direct_iff {text : String} : ofText text = .direct ↔ ¬ IsMarked text := by
  have signed (n? : Option Int) : (n?.map Step.offset).getD .malformed ≠ .direct := by
    cases n? <;> exact Step.noConfusion
  constructor
  · rintro hdirect (⟨rest, rfl⟩ | ⟨rest, rfl⟩)
    · exact signed _ (ofText_increase rest ▸ hdirect)
    · exact signed _ (ofText_decrease rest ▸ hdirect)
  · exact fun hmark => ofText_of_no_sign fun hsign => hmark (isMarked_iff.2 hsign)

/-- Two plus signs and a number are an offset by this number. -/
theorem ofText_increase_of_int64? {rest : String} {n : Int} (h : Numeral.int64? rest = some n) :
    ofText ("++" ++ rest) = .offset n := by
  rw [ofText_increase, h]
  rfl

/-- Two minus signs and a number are an offset the other way, if the opposite is a number too. -/
theorem ofText_decrease_of_int64? {rest : String} {n : Int} (h : Numeral.int64? rest = some n)
    (hn : -n ≤ Numeral.int64Greatest) : ofText ("--" ++ rest) = .offset (-n) := by
  rw [ofText_decrease, h, Option.map_some, Option.filter_some, if_pos (decide_eq_true hn)]
  rfl

/-- The texts that give a number: an offset after a mark, or the number itself. -/
inductive IsNumber : String → Prop
  | increase {rest : String} {n : Int} (h : Numeral.int64? rest = some n) : IsNumber ("++" ++ rest)
  | decrease {rest : String} {n : Int} (h : Numeral.int64? rest = some n)
      (hn : -n ≤ Numeral.int64Greatest) : IsNumber ("--" ++ rest)
  | direct {text : String} {n : Int} (hmark : ¬ IsMarked text)
      (h : Numeral.int64? text = some n) : IsNumber text

/-- A mark without an offset gives no number. -/
theorem not_isNumber_of_malformed {text : String} (h : ofText text = .malformed) :
    ¬ IsNumber text := by
  intro hnumber
  cases hnumber with
  | increase hn => rw [ofText_increase_of_int64? hn] at h; cases h
  | decrease hn hle => rw [ofText_decrease_of_int64? hn hle] at h; cases h
  | direct hmark hn => rw [ofText_eq_direct_iff.2 hmark] at h; cases h

/-- A text that gives no number is a mark without an offset, or no numeral. -/
theorem ofText_of_not_isNumber {text : String} (h : ¬ IsNumber text) :
    ofText text = .malformed ∨ (ofText text = .direct ∧ Numeral.int64? text = none) := by
  by_cases hmark : IsMarked text
  · rcases hmark with ⟨rest, rfl⟩ | ⟨rest, rfl⟩
    · cases hnumber : Numeral.int64? rest with
      | none =>
        rw [ofText_increase, hnumber]
        exact .inl rfl
      | some n => exact absurd (.increase hnumber) h
    · cases hnumber : Numeral.int64? rest with
      | none =>
        rw [ofText_decrease, hnumber]
        exact .inl rfl
      | some n =>
        have hgreat : ¬ (decide (-n ≤ Numeral.int64Greatest)) = true :=
          fun hn => h (.decrease hnumber (of_decide_eq_true hn))
        rw [ofText_decrease, hnumber, Option.map_some, Option.filter_some, if_neg hgreat]
        exact .inl rfl
  · cases hnumber : Numeral.int64? text with
    | none => exact .inr ⟨ofText_eq_direct_iff.2 hmark, rfl⟩
    | some n => exact absurd (.direct hmark hnumber) h

/-- An offset is a number of 64 bits. -/
theorem mem_range_of_ofText {text : String} {n : Int} (h : ofText text = .offset n) :
    Numeral.int64Least ≤ n ∧ n ≤ Numeral.int64Greatest := by
  have ofNumber {n? : Option Int} (h : (n?.map Step.offset).getD .malformed = .offset n) :
      n? = some n := by
    cases n? with
    | none => cases h
    | some m => exact congrArg some (Step.offset.inj h)
  by_cases hmark : IsMarked text
  · rcases hmark with ⟨rest, rfl⟩ | ⟨rest, rfl⟩
    · rw [ofText_increase] at h
      exact Numeral.mem_range_of_int64? (ofNumber h)
    · rw [ofText_decrease] at h
      obtain ⟨hnumber, hle⟩ := Option.filter_eq_some_iff.1 (ofNumber h)
      obtain ⟨m, hm, rfl⟩ := Option.map_eq_some_iff.1 hnumber
      -- Of the numbers of 64 bits only the least has a negation beyond them, which is filtered out.
      have hrange := Numeral.mem_range_of_int64? hm
      unfold Numeral.int64Least Numeral.int64Greatest at *
      simp only [decide_eq_true_eq] at hle
      omega
  · rw [ofText_eq_direct_iff.2 hmark] at h
    cases h

end Step

end TypedConfig
