import TypedConfig.Proofs.Offsets
import TypedConfig.Proofs.Options

/-!
# How numbers are set

The sum of a number and an offset stops at the ends of 64 bits before it is clamped into the bounds
of the option. As these bounds are numbers of 64 bits themselves, the result is what exact
arithmetic gives (`clamp_saturatingAdd`). From null an offset leads to its own number, which is not
clamped. So there is one answer to every text (`Entry.readsNumbers`).
-/

namespace TypedConfig

/-! ## Sums -/

/-- A number that is not above the lower bound is clamped to it. -/
theorem clamp_of_le {lo hi n : Int} (hordered : lo ≤ hi) (h : n ≤ lo) : clamp lo hi n = lo := by
  rcases Int.lt_or_eq_of_le h with hlt | rfl
  · rw [clamp, if_pos hlt]
  · exact clamp_of_mem_range (Int.le_refl n) hordered

/-- A number that is not below the upper bound is clamped to it. -/
theorem clamp_of_ge {lo hi n : Int} (hordered : lo ≤ hi) (h : hi ≤ n) : clamp lo hi n = hi := by
  rcases Int.lt_or_eq_of_le h with hlt | rfl
  · rw [clamp, if_neg (by omega), if_pos hlt]
  · exact clamp_of_mem_range hordered (Int.le_refl hi)

/-- A sum that stops at the ends of 64 bits is a number of 64 bits. -/
theorem mem_range_saturatingAdd (m n : Int) :
    Numeral.int64Least ≤ saturatingAdd m n ∧ saturatingAdd m n ≤ Numeral.int64Greatest :=
  clamp_mem_range (by decide) (m + n)

/-- Within bounds of 64 bits it does not matter that a sum stops at the ends of these first. -/
theorem clamp_saturatingAdd {lo hi : Int} (hordered : lo ≤ hi) (hleast : Numeral.int64Least ≤ lo)
    (hgreatest : hi ≤ Numeral.int64Greatest) (m n : Int) :
    clamp lo hi (saturatingAdd m n) = clamp lo hi (m + n) := by
  unfold saturatingAdd
  generalize m + n = sum
  -- A sum beyond an end of 64 bits lies beyond the bound at that end, as does the end itself.
  rcases Int.le_total sum Numeral.int64Least with hbelow | hleast'
  · rw [clamp_of_le (by decide) hbelow, clamp_of_le hordered hleast,
      clamp_of_le hordered (by omega)]
  rcases Int.le_total Numeral.int64Greatest sum with habove | hgreatest'
  · rw [clamp_of_ge (by decide) habove, clamp_of_ge hordered hgreatest,
      clamp_of_ge hordered (by omega)]
  · rw [clamp_of_mem_range hleast' hgreatest']

/-! ## The texts of numbers -/

namespace Domain

variable {lo hi : Int} {text : String} {n : Int}

/-- An offset from a number leads to the exact sum, clamped. -/
theorem acceptInteger?_offset (hordered : lo ≤ hi) (hleast : Numeral.int64Least ≤ lo)
    (hgreatest : hi ≤ Numeral.int64Greatest) (h : Step.ofText text = .offset n) (base : Int) :
    acceptInteger? lo hi (some (.integer base)) text = some (clamp lo hi (base + n)) := by
  unfold acceptInteger?
  rw [h]
  exact congrArg some (clamp_saturatingAdd hordered hleast hgreatest base n)

/-- An offset from null leads to its own number, if that lies within the bounds. -/
theorem acceptInteger?_offset_null (h : Step.ofText text = .offset n) :
    acceptInteger? lo hi none text = if lo ≤ n ∧ n ≤ hi then some n else none := by
  unfold acceptInteger?
  rw [h]
  dsimp only
  by_cases hn : lo ≤ n ∧ n ≤ hi
  · rw [if_neg (by omega), if_pos hn, clamp_of_mem_range hn.1 hn.2]
  · rw [if_pos (by omega), if_neg hn]

/-- A text for the value itself leads to its number, clamped, and has to be the text of one. -/
theorem acceptInteger?_direct (h : Step.ofText text = .direct) (current : Option Value) :
    acceptInteger? lo hi current text = (Numeral.int64? text).map (clamp lo hi) := by
  unfold acceptInteger?
  rw [h]

/-- A mark without a number leads nowhere. -/
theorem acceptInteger?_malformed (h : Step.ofText text = .malformed) (current : Option Value) :
    acceptInteger? lo hi current text = none := by
  unfold acceptInteger?
  rw [h]

end Domain

/-! ## Options -/

namespace Entry

/-- A set to a text makes this the value, which is a change where it was another one. -/
def Becomes (e : Entry) (text : String) (v : Value) : Prop :=
  (e.set (some text)).result =
    ({ e with value := some v }, .ok (if e.value = some v then .sameValue else .changed))

/-- A set to a text is refused, and nothing happens. -/
def Rejects (e : Entry) (text : String) : Prop :=
  e.set (some text) = pure (e, .error (.invalidValue e.fullName text))

variable {e : Entry} {text : String}

/-- A store of a value, with its outcome. -/
theorem result_store_value (e : Entry) (v : Option Value) :
    (e.store .value v).result =
      ({ e with value := v }, .ok (if e.value = v then .sameValue else .changed)) := by
  refine Prod.ext (store_entry e .value v) ?_
  show (e.store .value v).result.2 = _
  unfold store
  show (if e.value = v then _ else _ : Changing).result.2 = _
  split <;> rfl

/-- A text that the domain accepts gives an option without a check its value. -/
theorem becomes_of_accept? (hcheck : e.check = none) {v : Value}
    (h : e.domain.accept? e.value text = some v) : e.Becomes text v := by
  unfold Becomes
  rw [set_of_accept? hcheck h, result_store_value]

/-- A text that the domain does not accept is refused. -/
theorem rejects_of_accept? (hcheck : e.check = none) (h : e.domain.accept? e.value text = none) :
    e.Rejects text := by
  unfold Rejects
  rw [set_of_accept?_eq_none hcheck h]
  rfl

/-- How an option with these bounds reads texts. The number of an offset is that of the text after
the mark, or its negation; all of these are numbers of 64 bits. -/
structure ReadsNumbers (e : Entry) (lo hi : Int) : Prop where
  /-- `++N` adds to a number exactly, and the sum is clamped. -/
  increase : ∀ base text n, e.value = some (.integer base) → Numeral.int64? text = some n →
    e.Becomes ("++" ++ text) (.integer (clamp lo hi (base + n)))
  /-- `--N` subtracts from a number exactly, and the difference is clamped. -/
  decrease : ∀ base text n, e.value = some (.integer base) → Numeral.int64? text = some n →
    -n ≤ Numeral.int64Greatest → e.Becomes ("--" ++ text) (.integer (clamp lo hi (base - n)))
  /-- `++N` leads from null to a number within the bounds, and to no other. -/
  increase_null : ∀ text n, e.value = none → Numeral.int64? text = some n →
    if lo ≤ n ∧ n ≤ hi then e.Becomes ("++" ++ text) (.integer n) else e.Rejects ("++" ++ text)
  /-- `--N` leads from null to the negation of a number, if that lies within the bounds. -/
  decrease_null : ∀ text n, e.value = none → Numeral.int64? text = some n →
    -n ≤ Numeral.int64Greatest →
    if lo ≤ -n ∧ -n ≤ hi then e.Becomes ("--" ++ text) (.integer (-n)) else e.Rejects ("--" ++ text)
  /-- A text without a mark leads to its number, clamped, whatever the value was. -/
  direct : ∀ text n, ¬ Step.IsMarked text → Numeral.int64? text = some n →
    e.Becomes text (.integer (clamp lo hi n))
  /-- Every other text is refused. -/
  other : ∀ text, ¬ Step.IsNumber text → e.Rejects text
  /-- What is added is a number of 64 bits. -/
  offset_mem_range : ∀ text n, Step.ofText text = .offset n →
    Numeral.int64Least ≤ n ∧ n ≤ Numeral.int64Greatest
  /-- What is computed on the way is a number of 64 bits, and clamped it is the exact sum. -/
  sum_exact : ∀ m n, Numeral.int64Least ≤ saturatingAdd m n ∧
    saturatingAdd m n ≤ Numeral.int64Greatest ∧
    clamp lo hi (saturatingAdd m n) = clamp lo hi (m + n)

/-- An option whose bounds are numbers of 64 bits reads texts exactly, whatever its value is, if it
has no check. -/
theorem readsNumbers {lo hi : Int} (hdomain : e.domain = .integer lo hi) (hcheck : e.check = none)
    (hordered : lo ≤ hi) (hleast : Numeral.int64Least ≤ lo)
    (hgreatest : hi ≤ Numeral.int64Greatest) : e.ReadsNumbers lo hi := by
  have haccept (text : String) : e.domain.accept? e.value text =
      (Domain.acceptInteger? lo hi e.value text).map .integer := by rw [hdomain]; rfl
  have becomes {text : String} {n : Int}
      (h : Domain.acceptInteger? lo hi e.value text = some n) : e.Becomes text (.integer n) := by
    refine becomes_of_accept? hcheck ?_
    rw [haccept, h]
    rfl
  have rejects {text : String} (h : Domain.acceptInteger? lo hi e.value text = none) :
      e.Rejects text := by
    refine rejects_of_accept? hcheck ?_
    rw [haccept, h]
    rfl
  -- The two marks differ in the offset only, so each case is settled once for both of them.
  have offset {text : String} {base n : Int} (hvalue : e.value = some (.integer base))
      (h : Step.ofText text = .offset n) : e.Becomes text (.integer (clamp lo hi (base + n))) := by
    apply becomes
    rw [hvalue, Domain.acceptInteger?_offset hordered hleast hgreatest h]
  have offset_null {text : String} {n : Int} (hvalue : e.value = none)
      (h : Step.ofText text = .offset n) :
      if lo ≤ n ∧ n ≤ hi then e.Becomes text (.integer n) else e.Rejects text := by
    have hnull : Domain.acceptInteger? lo hi e.value text =
        if lo ≤ n ∧ n ≤ hi then some n else none := by
      rw [hvalue, Domain.acceptInteger?_offset_null h]
    by_cases hn : lo ≤ n ∧ n ≤ hi
    · rw [if_pos hn] at hnull ⊢
      exact becomes hnull
    · rw [if_neg hn] at hnull ⊢
      exact rejects hnull
  exact {
    increase := fun base text n hvalue h => offset hvalue (Step.ofText_increase_of_int64? h)
    decrease := fun base text n hvalue h hn => offset hvalue (Step.ofText_decrease_of_int64? h hn)
    increase_null := fun text n hvalue h => offset_null hvalue (Step.ofText_increase_of_int64? h)
    decrease_null := fun text n hvalue h hn =>
      offset_null hvalue (Step.ofText_decrease_of_int64? h hn)
    direct := by
      intro text n hmark h
      apply becomes
      rw [Domain.acceptInteger?_direct (Step.ofText_eq_direct_iff.2 hmark), h]
      rfl
    other := by
      intro text h
      apply rejects
      rcases Step.ofText_of_not_isNumber h with hmalformed | ⟨hdirect, hnone⟩
      · exact Domain.acceptInteger?_malformed hmalformed _
      · rw [Domain.acceptInteger?_direct hdirect, hnone]
        rfl
    offset_mem_range := fun text n h => Step.mem_range_of_ofText h
    sum_exact := fun m n => ⟨(mem_range_saturatingAdd m n).1, (mem_range_saturatingAdd m n).2,
      clamp_saturatingAdd hordered hleast hgreatest m n⟩ }

/-- A number near the greatest one, which may be any number of 64 bits. -/
def high : Entry where
  file := "app"
  sectionName := "look"
  name := "depth"
  parent := none
  domain := .integer Numeral.int64Least Numeral.int64Greatest
  labels := []
  description := ""
  nullable := false
  default := some (.integer 0)
  value := some (.integer 9223372036854775806)
  check := none
  tellsChange := false
  tellsRemoval := false

/-- Its sum with an offset stops at the greatest number, the difference is exact, and what is no
number of 64 bits is refused. -/
theorem readsNumbers_high :
    high.Becomes "++9223372036854775807" (.integer 9223372036854775807) ∧
      high.Becomes "--9223372036854775807" (.integer (-1)) ∧
      high.Rejects "---9223372036854775808" := by
  have h : high.ReadsNumbers _ _ := readsNumbers rfl rfl (by decide) (by decide) (by decide)
  refine ⟨?_, ?_, ?_⟩
  · exact h.increase _ "9223372036854775807" 9223372036854775807 rfl (by decide +kernel)
  · exact h.decrease _ "9223372036854775807" 9223372036854775807 rfl (by decide +kernel) (by decide)
  · exact h.other _ (Step.not_isNumber_of_malformed (by decide +kernel))

end Entry

end TypedConfig
