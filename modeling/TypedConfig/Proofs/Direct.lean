import TypedConfig.Proofs.Numbers
import TypedConfig.Proofs.Outcomes

/-!
# Texts that stand for a value

A text that flips a switch or counts on from the current value is relative (`Domain.IsRelative`).
All others stand for one value, if for any: the value that a definition reads off the same text, as
long as the domain knows it (`Domain.accept?_eq_some_iff`). What a change refuses a definition reads
as the neutral value, and this is the only difference between the two
(`Domain.readsOutright_of_not_relative`).
-/

namespace TypedConfig

namespace Domain

/-- Whether a text asks for a change from the current value, and not for a value of its own. -/
def IsRelative : Domain → String → Prop
  | boolean, text => text = toggleWord
  | integer _ _, text | color _ _, text | enum _, text =>
    ['+', '+'] <+: text.toList ∨ ['-', '-'] <+: text.toList
  | string _ _, _ => False

instance (domain : Domain) (text : String) : Decidable (domain.IsRelative text) :=
  match domain with
  | boolean => inferInstanceAs (Decidable (text = toggleWord))
  | integer _ _ => inferInstanceAs
      (Decidable (['+', '+'] <+: text.toList ∨ ['-', '-'] <+: text.toList))
  | string _ _ => inferInstanceAs (Decidable False)
  | color _ _ => inferInstanceAs
      (Decidable (['+', '+'] <+: text.toList ∨ ['-', '-'] <+: text.toList))
  | enum _ => inferInstanceAs
      (Decidable (['+', '+'] <+: text.toList ∨ ['-', '-'] <+: text.toList))

/-- Whether a text stands for a value of a domain: it is a word for a truth value, a numeral of 64
bits, a color not below the bound or the name of a variant. Every text stands for itself. -/
def Knows : Domain → String → Prop
  | boolean, text => text ∈ trueWords ∨ text ∈ falseWords
  | integer _ _, text => (Numeral.int64? text).isSome
  | string _ _, _ => True
  | color lo palette, text => ∃ id, palette.assign? text = some id ∧ lo ≤ id
  | enum variants, text => text ∈ variants

end Domain

/-! ## What a change makes of such a text -/

/-- The words for truth values are read alike by a change and by a definition. -/
theorem boolean?_eq_some_iff {text : String} {flag : Bool} :
    boolean? text = some flag ↔
      (text ∈ trueWords ∨ text ∈ falseWords) ∧ flag = isTrueWord text := by
  unfold boolean? isTrueWord
  by_cases htrue : text ∈ trueWords
  · simp [htrue, eq_comm]
  · by_cases hfalse : text ∈ falseWords
    · simp [htrue, hfalse, eq_comm]
    · simp [htrue, hfalse]

namespace Domain

variable {d : Domain} {text : String}

/-- A text without a mark leads to its number, moved within the bounds, if it is a numeral. -/
theorem acceptInteger?_eq_some_iff {lo hi n : Int} (h : Step.ofText text = .direct)
    (current : Option Value) :
    acceptInteger? lo hi current text = some n ↔
      (Numeral.int64? text).isSome ∧ n = clamp lo hi ((Numeral.int64? text).getD 0) := by
  rw [acceptInteger?_direct h]
  cases Numeral.int64? text <;> simp [eq_comm]

/-- It leads to the color it is assigned, unless the lower bound leaves that out. -/
theorem acceptColor?_eq_some_iff {lo id : Int} {palette : Palette}
    (h : Step.ofText text = .direct) (current : Option Value) :
    acceptColor? lo palette current text = some id ↔
      (∃ found, palette.assign? text = some found ∧ lo ≤ found) ∧
        id = (palette.assign? text).getD 0 := by
  unfold acceptColor?
  rw [h, Option.filter_eq_some_iff]
  dsimp only
  cases hassign : palette.assign? text with
  | none => simp
  | some found =>
    -- What a palette assigns is one of its colors, so the upper bound is met.
    have hsize : found < palette.size := (Palette.mem_range_of_assign? hassign).2
    simp only [Option.some.injEq, Option.getD_some, exists_eq_left', Bool.and_eq_true,
      decide_eq_true_eq]
    constructor
    · rintro ⟨rfl, hlo, -⟩
      exact ⟨hlo, rfl⟩
    · rintro ⟨hlo, rfl⟩
      exact ⟨rfl, hlo, by omega⟩

/-- It leads to the first variant of that name. -/
theorem acceptEnum?_eq_some_iff {variants : List String} {index : Nat}
    (h : Step.ofText text = .direct) (current : Option Value) :
    acceptEnum? variants current text = some index ↔
      text ∈ variants ∧ index = (variants.idxOf? text).getD 0 := by
  unfold acceptEnum?
  rw [h, ← List.isSome_idxOf?]
  dsimp only
  cases hindex : variants.idxOf? text with
  | none => simp
  | some found =>
    have hsize : variants.length ≠ 0 := by
      have hlt : found < variants.length := lt_length_of_idxOf? hindex
      omega
    simp [hsize, eq_comm]

/-- A change to a text that is not relative leads to the value that a definition reads off it, where
the domain knows the text, and is refused where it does not. -/
theorem accept?_eq_some_iff (h : ¬ d.IsRelative text) (current : Option Value) (v : Value) :
    d.accept? current text = some v ↔ d.Knows text ∧ v = d.convert text := by
  have hmap {α : Type} {n? : Option α} {f : α → Value} {P : Prop} {n : α}
      (hn : ∀ m, n? = some m ↔ P ∧ m = n) : n?.map f = some v ↔ P ∧ v = f n := by
    rw [Option.map_eq_some_iff]
    constructor
    · rintro ⟨m, hm, rfl⟩
      obtain ⟨hP, rfl⟩ := (hn m).1 hm
      exact ⟨hP, rfl⟩
    · rintro ⟨hP, rfl⟩
      exact ⟨n, (hn n).2 ⟨hP, rfl⟩, rfl⟩
  cases d with
  | boolean =>
    have hword : text ≠ toggleWord := h
    have haccept : acceptBoolean? current text = boolean? text := if_neg hword
    exact hmap fun flag => by rw [haccept]; exact boolean?_eq_some_iff
  | integer lo hi =>
    exact hmap fun n => acceptInteger?_eq_some_iff (Step.ofText_of_no_sign h) current
  | string lo hi =>
    show some (Value.string text) = some v ↔ True ∧ v = .string text
    rw [Option.some.injEq, true_and, eq_comm]
  | color lo palette =>
    exact hmap fun id => acceptColor?_eq_some_iff (Step.ofText_of_no_sign h) current
  | enum variants =>
    exact hmap fun index => acceptEnum?_eq_some_iff (Step.ofText_of_no_sign h) current

/-- What a text that is not relative asks for is the same for all current values. -/
theorem accept?_of_not_relative (h : ¬ d.IsRelative text) (v w : Option Value) :
    d.accept? v text = d.accept? w text := by
  refine Option.ext fun value => ?_
  rw [accept?_eq_some_iff h, accept?_eq_some_iff h]

end Domain

/-! ## Options -/

namespace Entry

/-- Whether the check of an option lets a text pass. An option without a check lets every text
pass. -/
def LetsPass (e : Entry) (text : String) : Prop :=
  ∀ accepts, e.check = some accepts → accepts e.toCell (some text) = true

variable {e : Entry} {text : String}

/-- Where the check lets a text pass, the domain decides about it. -/
theorem result_set_of_letsPass (h : e.LetsPass text) :
    (e.set (some text)).result = (e.storeText .value text).result := by
  unfold set
  cases hcheck : e.check with
  | none => rfl
  | some accepts =>
    dsimp only
    rw [h accepts hcheck]
    rfl

/-- A text that passes the check and is accepted gives the option its value. -/
theorem becomes_of_letsPass (h : e.LetsPass text) {v : Value}
    (haccept : e.domain.accept? e.value text = some v) : e.Becomes text v := by
  have hget : e.get .value = e.value := rfl
  unfold Becomes
  rw [result_set_of_letsPass h, storeText, hget, haccept]
  exact result_store_value e (some v)

/-- A text that passes the check and is not accepted is refused. -/
theorem refused_of_letsPass (h : e.LetsPass text)
    (haccept : e.domain.accept? e.value text = none) :
    (e.set (some text)).result = (e, .error (.invalidValue e.fullName text)) := by
  have hget : e.get .value = e.value := rfl
  rw [result_set_of_letsPass h, storeText, hget, haccept]
  rfl

/-- A set that succeeds was let pass. -/
theorem letsPass_of_set {e' : Entry} {outcome : SetOutcome}
    (h : (e.set (some text)).result = (e', .ok outcome)) : e.LetsPass text := by
  intro accepts hcheck
  refine Decidable.byContradiction fun hveto => ?_
  have hrefused : (e.set (some text)).result.2 = .error (.invalidValue e.fullName text) :=
    set_of_veto hcheck (Bool.eq_false_iff.2 hveto)
  rw [h] at hrefused
  cases hrefused

end Entry

/-- How a text is read that stands for a value by itself. -/
structure Domain.ReadsOutright (d : Domain) (text : String) : Prop where
  /-- The value that a change leads to is the one that a definition reads off the text. -/
  convert : ∀ current v, d.accept? current text = some v → v = d.convert text
  /-- The current value makes no difference to a change. -/
  independent : ∀ current other, d.accept? current text = d.accept? other text
  /-- Options whose checks let the text pass either all refuse it or are all set to this value. -/
  set : (∀ e : Entry, e.domain = d → e.LetsPass text →
      (e.set (some text)).result = (e, .error (.invalidValue e.fullName text))) ∨
    ∀ e : Entry, e.domain = d → e.LetsPass text → e.Becomes text (d.convert text)
  /-- An option that was set, and whose check lets the text pass again, stays as it is. -/
  again : ∀ (e e' : Entry) outcome, e.domain = d →
    (e.set (some text)).result = (e', .ok outcome) → e'.LetsPass text →
    (e'.set (some text)).result = (e', .ok .sameValue)

/-- Every text that is not relative is read so, whatever the domain is. -/
theorem Domain.readsOutright_of_not_relative {d : Domain} {text : String}
    (h : ¬ d.IsRelative text) : d.ReadsOutright text := by
  have becomes {e : Entry} (hdomain : e.domain = d) (hpass : e.LetsPass text)
      (hknown : d.Knows text) : e.Becomes text (d.convert text) := by
    refine Entry.becomes_of_letsPass hpass ?_
    rw [hdomain, accept?_eq_some_iff h]
    exact ⟨hknown, rfl⟩
  have refused {e : Entry} (hdomain : e.domain = d) (hpass : e.LetsPass text)
      (hunknown : ¬ d.Knows text) :
      (e.set (some text)).result = (e, .error (.invalidValue e.fullName text)) := by
    refine Entry.refused_of_letsPass hpass ?_
    rw [hdomain, Option.eq_none_iff_forall_ne_some]
    exact fun v hv => hunknown ((accept?_eq_some_iff h e.value v).1 hv).1
  refine ⟨fun current v hv => ((accept?_eq_some_iff h current v).1 hv).2,
    accept?_of_not_relative h, ?_, ?_⟩
  · by_cases hknown : d.Knows text
    · exact .inr fun e hdomain hpass => becomes hdomain hpass hknown
    · exact .inl fun e hdomain hpass => refused hdomain hpass hknown
  · intro e e' outcome hdomain hset hpass
    have hfirst := Entry.letsPass_of_set hset
    by_cases hknown : d.Knows text
    · -- The first set has left the very value that the text stands for.
      have he' := becomes hdomain hfirst hknown
      rw [Entry.Becomes, hset] at he'
      have heq : e' = { e with value := some (d.convert text) } := congrArg Prod.fst he'
      have hagain := becomes (e := e') (heq ▸ hdomain) hpass hknown
      rw [Entry.Becomes] at hagain
      rw [hagain, heq, if_pos rfl]
    · rw [refused hdomain hfirst hknown] at hset
      cases hset

/-- A palette that names its second color by the numeral of the first one's id: both readings go by
the name. -/
theorem Domain.readsOutright_zero :
    (Domain.color 0 ⟨["1", "0"]⟩).ReadsOutright "0" ∧
      (Domain.color 0 ⟨["1", "0"]⟩).accept? (some (.color 0)) "0" = some (.color 1) ∧
      (Domain.color 0 ⟨["1", "0"]⟩).convert "0" = .color 1 := by
  have haccept : (Domain.color 0 ⟨["1", "0"]⟩).accept? (some (.color 0)) "0" =
      some (.color 1) := by decide +kernel
  have h : (Domain.color 0 ⟨["1", "0"]⟩).ReadsOutright "0" :=
    readsOutright_of_not_relative (by decide)
  exact ⟨h, haccept, (h.convert _ _ haccept).symm⟩

end TypedConfig
