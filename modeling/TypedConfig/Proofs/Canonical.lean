import TypedConfig.Proofs.Direct
import TypedConfig.Proofs.Lines
import TypedConfig.Proofs.Rings

/-!
# Canonical texts given back

An option that is set to the canonical text of its own value stays as it is: truth values, numbers
and texts always do. A color and a variant are looked up by their names again, so they stay if the
name is the first of its kind in the list and has no mark of an offset, or if the offset that it
asks for goes round to the same place (`Step.LeadsBack`). These are all of them
(`Registry.set_valueText_iff`).
-/

namespace TypedConfig

/-! ## Lists of names -/

namespace Step

/-- Whether the name at a place of a list, given back, leads to that place: it is the first of its
kind and has no mark, or asks for an offset by a multiple of the list's length. -/
def LeadsBack (names : List String) (i : Nat) : Prop :=
  ∃ name, names[i]? = some name ∧
    ((¬ IsMarked name ∧ name ∉ names.take i) ∨
      ∃ n, ofText name = .offset n ∧ (names.length : Int) ∣ n)

variable {names : List String} {i : Nat} {name : String}

/-- What leads back depends on how the name asks. -/
theorem leadsBack_iff (hname : names[i]? = some name) : LeadsBack names i ↔
    match ofText name with
    | .direct => name ∉ names.take i
    | .offset n => (names.length : Int) ∣ n
    | .malformed => False := by
  have hunique : LeadsBack names i ↔ (ofText name = .direct ∧ name ∉ names.take i) ∨
      ∃ n, ofText name = .offset n ∧ (names.length : Int) ∣ n := by
    rw [ofText_eq_direct_iff]
    constructor
    · rintro ⟨other, hother, hleads⟩
      obtain rfl := Option.some.inj (hother.symm.trans hname)
      exact hleads
    · exact fun hleads => ⟨name, hname, hleads⟩
  rw [hunique]
  -- Of the two ways to lead back at most one fits how the name asks.
  cases ofText name <;> simp

end Step

/-- A name is found at a place if it does not stand before. -/
theorem idxOf?_eq_some_iff_not_mem_take {names : List String} {i : Nat} {name : String}
    (hname : names[i]? = some name) :
    names.idxOf? name = some i ↔ name ∉ names.take i := by
  obtain ⟨hlt, heq⟩ := List.getElem?_eq_some_iff.1 hname
  rw [List.idxOf?_eq_some_iff, List.mem_take_iff_getElem]
  constructor
  · rintro ⟨_, _, hfirst⟩ ⟨j, hj, hsame⟩
    exact hfirst j (by omega) hsame
  · exact fun hnone => ⟨hlt, heq, fun j hj hsame => hnone ⟨j, by omega, hsame⟩⟩

/-- A way round a ring leads back if and only if it goes round a number of times. -/
theorem add_emod_eq_self_iff {i size n : Int} (hpos : 0 ≤ i) (hlt : i < size) :
    (i + n) % size = i ↔ size ∣ n := by
  have hself : i % size = i := Int.emod_eq_of_lt hpos hlt
  calc (i + n) % size = i ↔ (i + n) % size = i % size := by rw [hself]
    _ ↔ (i + n - i) % size = 0 := Int.emod_eq_emod_iff_emod_sub_eq_zero
    _ ↔ size ∣ n := by rw [show i + n - i = n by omega, Int.dvd_iff_emod_eq_zero]

/-! ## Values -/

namespace Domain

/-- Whether the canonical text of a value, given back, leads to the value. -/
def LeadsBack (d : Domain) : Value → Prop
  | .color id => Step.LeadsBack d.palette.names id.toNat
  | .enum index => Step.LeadsBack d.variants index
  | _ => True

/-- Whether the bounds of a domain admit a value: those of numbers are numbers of 64 bits, and a
color lies within its own. The sum of a color and the offset that its name may ask for is a number
of 64 bits as well. -/
def Admits (d : Domain) : Value → Prop
  | .integer _ => Numeral.int64Least ≤ d.lo ∧ d.hi ≤ Numeral.int64Greatest
  | .color id => d.lo ≤ id ∧ id ≤ d.hi ∧
      ∀ n, Step.ofText (d.format (.color id)) = .offset n → id + n ≤ Numeral.int64Greatest
  | _ => True

/-- The name of a color leads back to it if and only if it does so in the list of names. -/
theorem acceptColor?_eq_self_iff {lo : Int} {palette : Palette} {i : Nat} {name : String}
    (hname : palette.names[i]? = some name) (hlo : lo ≤ i)
    (hgreatest : ∀ n, Step.ofText name = .offset n → (i : Int) + n ≤ Numeral.int64Greatest) :
    acceptColor? lo palette (some (.color i)) name = some (i : Int) ↔
      Step.LeadsBack palette.names i := by
  obtain ⟨hlt, _⟩ := List.getElem?_eq_some_iff.1 hname
  have hsize : i < palette.size := hlt
  rw [Step.leadsBack_iff hname]
  cases hstep : Step.ofText name with
  | direct =>
    -- The list has the name, so it is not read as the numeral of an id.
    have hmem : name ∈ palette.names := List.mem_of_getElem? hname
    obtain ⟨j, hj, _⟩ := exists_idxOf?_eq hmem
    rw [acceptColor?_eq_some_iff hstep, ← idxOf?_eq_some_iff_not_mem_take hname]
    simp only [Palette.assign?, hj, Option.some.injEq, Option.getD_some, exists_eq_left',
      Int.natCast_inj]
    constructor
    · rintro ⟨-, rfl⟩
      rfl
    · rintro rfl
      exact ⟨hlo, rfl⟩
  | offset n =>
    -- The palette has the color, so the offset is counted from there. Offsets are numbers of 64
    -- bits, and no color is below zero, so only the greatest number could be passed.
    have hleast := (Step.mem_range_of_ofText hstep).1
    have hfits : FitsWord ((i : Int) + n) := ⟨by omega, hgreatest n hstep⟩
    rw [acceptColor?_offset (by omega) (by omega) hstep hfits]
    calc (if lo ≤ ((i : Int) + n) % palette.size then some (((i : Int) + n) % palette.size)
            else none) = some (i : Int)
        ↔ ((i : Int) + n) % palette.size = i := by
          rw [Option.ite_none_right_eq_some, Option.some.injEq]
          exact and_iff_right_of_imp fun h => h.symm ▸ hlo
      _ ↔ (palette.names.length : Int) ∣ n := add_emod_eq_self_iff (by omega) (by omega)
  | malformed => simp [acceptColor?, hstep]

/-- A variant leads back to its place if and only if it does so in the list of variants. -/
theorem acceptEnum?_eq_self_iff {variants : List String} {i : Nat} {name : String}
    (hname : variants[i]? = some name) :
    acceptEnum? variants (some (.enum i)) name = some i ↔ Step.LeadsBack variants i := by
  obtain ⟨hlt, _⟩ := List.getElem?_eq_some_iff.1 hname
  have hsize : variants.length ≠ 0 := by omega
  rw [Step.leadsBack_iff hname]
  cases hstep : Step.ofText name with
  | direct => simp [acceptEnum?, hstep, hsize, ← idxOf?_eq_some_iff_not_mem_take hname]
  | offset n =>
    have hvariants : variants ≠ [] := List.ne_nil_of_length_pos (by omega)
    have hplace : 0 ≤ ((i : Int) + n) % variants.length := Int.emod_nonneg _ (by omega)
    rw [acceptEnum?_offset hvariants hstep]
    calc some (((i : Int) + n) % variants.length).toNat = some i
        ↔ ((i : Int) + n) % variants.length = i := by
          rw [Option.some.injEq]
          omega
      _ ↔ (variants.length : Int) ∣ n := add_emod_eq_self_iff (by omega) (by omega)
  | malformed => simp [acceptEnum?, hstep]

/-- A change to the canonical text of the current value leads to that value if and only if the text
leads back. -/
theorem accept?_format_iff {d : Domain} {v : Value} (hholds : d.Holds v) (hadmits : d.Admits v) :
    d.accept? (some v) (d.format v) = some v ↔ d.LeadsBack v := by
  cases d with
  | boolean =>
    cases v <;> try contradiction
    next flag => cases flag <;> exact iff_of_true rfl trivial
  | integer lo hi =>
    cases v <;> try contradiction
    next n =>
      have haccept := acceptInteger?_ofInt hadmits.1 hadmits.2 hholds (some (.integer n))
      exact iff_of_true (congrArg (Option.map Value.integer) haccept) trivial
  | string lo hi =>
    cases v <;> try contradiction
    next text => exact iff_of_true rfl trivial
  | color lo palette =>
    cases v <;> try contradiction
    next id =>
      -- A color within its bounds is one of the palette, so it has a name.
      obtain ⟨hpos, _⟩ : 0 ≤ id ∧ (id < palette.size ∨ id = 0) := hholds
      obtain ⟨hlo, hhi, hsum⟩ : lo ≤ id ∧ id ≤ (palette.size : Int) - 1 ∧ _ := hadmits
      obtain ⟨i, rfl⟩ := Int.eq_ofNat_of_zero_le hpos
      have hlt : i < palette.names.length := by
        unfold Palette.size at hhi
        omega
      have hname : palette.names[i]? = some palette.names[i] := List.getElem?_eq_getElem hlt
      have htext : (Domain.color lo palette).format (.color i) = palette.names[i] := by
        simp [format, Domain.palette, Palette.name?, hname]
      have hinjective : Function.Injective Value.color := fun _ _ h => Value.color.inj h
      rw [htext] at hsum ⊢
      calc (acceptColor? lo palette (some (.color i)) palette.names[i]).map Value.color =
              some (.color i)
          ↔ acceptColor? lo palette (some (.color i)) palette.names[i] = some (i : Int) :=
            (Option.map_injective hinjective).eq_iff (b := some (i : Int))
        _ ↔ Step.LeadsBack palette.names i := acceptColor?_eq_self_iff hname hlo hsum
  | enum variants =>
    cases v <;> try contradiction
    next index =>
      have hlt : index < variants.length := hholds
      have hname : variants[index]? = some variants[index] := List.getElem?_eq_getElem hlt
      have htext : (Domain.enum variants).format (.enum index) = variants[index] := by
        simp [format, Domain.variants, hname]
      have hinjective : Function.Injective Value.enum := fun _ _ h => Value.enum.inj h
      rw [htext]
      calc (acceptEnum? variants (some (.enum index)) variants[index]).map Value.enum =
              some (.enum index)
          ↔ acceptEnum? variants (some (.enum index)) variants[index] = some index :=
            (Option.map_injective hinjective).eq_iff (b := some index)
        _ ↔ Step.LeadsBack variants index := acceptEnum?_eq_self_iff hname

end Domain

/-! ## Options -/

/-- Without a check a set to a text leaves an option as it is if and only if its domain has the
current value for the text. -/
theorem Entry.set_eq_sameValue_iff {e : Entry} (hcheck : e.check = none) {v : Value}
    (hvalue : e.value = some v) (text : String) :
    e.set (some text) = pure (e, .ok .sameValue) ↔ e.domain.accept? (some v) text = some v := by
  have outcome {t : Entry.Changing} (h : t = pure (e, .ok .sameValue)) :
      t.result.2 = .ok .sameValue := by rw [h]; rfl
  cases haccept : e.domain.accept? (some v) text with
  | none =>
    rw [set_of_accept?_eq_none hcheck (hvalue ▸ haccept)]
    exact iff_of_false (fun h => by cases outcome h) nofun
  | some w =>
    have hget : e.get .value = some v := hvalue
    rw [set_of_accept? hcheck (hvalue ▸ haccept)]
    unfold store
    by_cases hsame : w = v
    · subst hsame
      rw [if_pos hget]
      exact iff_of_true rfl rfl
    · have hne : some v ≠ some w := fun h => hsame (Option.some.inj h).symm
      rw [hget, if_neg hne]
      exact iff_of_false (fun h => by cases outcome h) fun h => hsame (Option.some.inj h)

namespace Registry

/-- An option without a check, set to the canonical text of its own value, stays as it is if and
only if the text leads back. -/
theorem set_valueText_iff {r : Registry} (hr : r.Reachable) {e : Entry} (he : e ∈ r.entries)
    (hcheck : e.check = none) {v : Value} (hvalue : e.value = some v)
    (hadmits : e.domain.Admits v) :
    e.set e.valueText = pure (e, .ok .sameValue) ↔ e.domain.LeadsBack v := by
  have hget : e.get .value = some v := hvalue
  have htext : e.valueText = some (e.domain.format v) := by
    unfold Cell.valueText
    rw [hvalue]
    rfl
  rw [htext, Entry.set_eq_sameValue_iff hcheck hvalue]
  exact Domain.accept?_format_iff ((hr.sound he).holds hget) hadmits

/-- A run that makes three options with variants, of which one is listed twice and two have marks,
and moves the first option on to its second variant. -/
def relisting : List Operation :=
  [.addFile "app", .addSection "app" { name := "look" },
    .edit "app" "look"
      (.define { name := "mode", kind := .enum, labels := ["dark", "dark"],
                 default := some "dark" } fun _ =>
        .define { name := "pace", kind := .enum, labels := ["++1", "slow"],
                  default := some "++1" } fun _ =>
          .define { name := "turn", kind := .enum, labels := ["++2", "left"],
                    default := some "++2" } fun _ => .finish (.ok ())),
    .mutate "app.look.mode" (.set (some "++1"))]

/-- What `relisting` leads to. -/
def relisted : Registry :=
  (run relisting { env := { dir := "/etc" } } {}).result.1

/-- A run leads there. -/
theorem reachable_relisted : relisted.Reachable := by
  unfold relisted
  exact ⟨{ dir := "/etc" }, relisting, {}, rfl⟩

/-- An offset by two leads round two variants. -/
theorem set_valueText_iff_relisted : ∃ e ∈ relisted.entries, e.valueText = some "++2" ∧
    e.set e.valueText = pure (e, .ok .sameValue) := by
  obtain ⟨e, he, hdomain, hvalue, htext, hcheck⟩ : ∃ e ∈ relisted.entries,
      e.domain = .enum ["++2", "left"] ∧ e.value = some (.enum 0) ∧ e.valueText = some "++2" ∧
        e.check.isNone := by
    decide +kernel
  have hiff := set_valueText_iff reachable_relisted he (Option.isNone_iff_eq_none.1 hcheck) hvalue
    trivial
  refine ⟨e, he, htext, hiff.2 ?_⟩
  rw [hdomain]
  exact ⟨"++2", rfl, .inr ⟨2, by decide +kernel, by decide⟩⟩

/-- The second of two equal variants leads to the first, and an offset by one to the other. -/
theorem not_set_valueText_relisted : relisted.Reachable ∧
    (∃ e ∈ relisted.entries, e.check.isNone ∧ e.valueText = some "dark" ∧
      e.value = some (.enum 1) ∧ (e.set e.valueText).result.1.value = some (.enum 0) ∧
      e.set e.valueText ≠ pure (e, .ok .sameValue)) ∧
    ∃ e ∈ relisted.entries, e.check.isNone ∧ e.valueText = some "++1" ∧
      e.value = some (.enum 0) ∧ (e.set e.valueText).result.1.value = some (.enum 1) ∧
      e.set e.valueText ≠ pure (e, .ok .sameValue) := by
  have moves {e : Entry} {v : Option Value} (hset : (e.set e.valueText).result.1.value = v)
      (hne : e.value ≠ v) : e.set e.valueText ≠ pure (e, .ok .sameValue) := by
    intro h
    rw [h] at hset
    exact hne hset
  refine ⟨reachable_relisted, ?_, ?_⟩
  · obtain ⟨e, he, hcheck, htext, hvalue, hset⟩ : ∃ e ∈ relisted.entries, e.check.isNone ∧
        e.valueText = some "dark" ∧ e.value = some (.enum 1) ∧
          (e.set e.valueText).result.1.value = some (.enum 0) := by
      decide +kernel
    exact ⟨e, he, hcheck, htext, hvalue, hset, moves hset (by rw [hvalue]; decide)⟩
  · obtain ⟨e, he, hcheck, htext, hvalue, hset⟩ : ∃ e ∈ relisted.entries, e.check.isNone ∧
        e.valueText = some "++1" ∧ e.value = some (.enum 0) ∧
          (e.set e.valueText).result.1.value = some (.enum 1) := by
      decide +kernel
    exact ⟨e, he, hcheck, htext, hvalue, hset, moves hset (by rw [hvalue]; decide)⟩

end Registry

end TypedConfig
