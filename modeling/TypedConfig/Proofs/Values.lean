import TypedConfig.Value

/-!
# The values of a domain

A domain is valid if its bounds leave room for a value (`Domain.Valid`), and it holds the values of
its kind that lie within its limits (`Domain.Holds`). What a definition's text stands for and what a
change's text leads to are values that the domain holds (`Domain.holds_convert`,
`Domain.holds_of_accept?`). A color has to be in the palette, and its lower bound is not part of
`Domain.Holds`: the text of a definition is not measured by it.
-/

namespace TypedConfig

/-- Whether the bounds of a domain leave room for a value. -/
def Domain.Valid : Domain → Prop
  | .enum variants => variants ≠ []
  | d => d.lo ≤ d.hi

/-- Whether a value is one of a domain. An empty palette has a color still, the first one. -/
def Domain.Holds : Domain → Value → Prop
  | .boolean, .boolean _ => True
  | .integer lo hi, .integer n => lo ≤ n ∧ n ≤ hi
  | .string .., .string _ => True
  | .color _ palette, .color id => 0 ≤ id ∧ (id < palette.size ∨ id = 0)
  | .enum variants, .enum index => index < variants.length
  | _, _ => False

/-! ## Lists and palettes -/

/-- The position at which a list holds a thing. -/
theorem lt_length_of_idxOf? {α : Type} [BEq α] {a : α} {as : List α} {i : Nat}
    (h : as.idxOf? a = some i) : i < as.length := by
  unfold List.idxOf? at h
  exact (List.findIdx?_eq_some_iff_findIdx_eq.1 h).1

namespace Palette

/-- A color that a text chooses is in the palette. -/
theorem mem_range_of_assign? {p : Palette} {text : String} {color : Int}
    (h : p.assign? text = some color) : 0 ≤ color ∧ color < p.size := by
  unfold assign? at h
  split at h
  · next i hi =>
    have hlt : i < p.size := lt_length_of_idxOf? hi
    obtain rfl := Option.some.inj h
    omega
  · have hrange := (Option.filter_eq_some_iff.1 h).2
    simpa using hrange

/-- A color some places further on is in the palette. -/
theorem mem_range_of_shift? {p : Palette} {color offset shifted : Int}
    (h : p.shift? color offset = some shifted) :
    0 ≤ shifted ∧ shifted < p.size := by
  unfold shift? at h
  split at h
  · contradiction
  · next hsize =>
    obtain rfl := Option.some.inj h
    have hpos : (0 : Int) < p.size := by omega
    exact ⟨Int.emod_nonneg _ (Int.ne_of_gt hpos), Int.emod_lt_of_pos _ hpos⟩

end Palette

namespace Domain

/-! ## Texts of definitions -/

/-- What a definition's text stands for is a value of the domain. -/
theorem holds_convert {d : Domain} (h : d.Valid) (text : String) : d.Holds (d.convert text) := by
  cases d with
  | boolean => trivial
  | integer lo hi => exact clamp_mem_range h _
  | string lo hi => trivial
  | color lo palette =>
    show 0 ≤ (palette.assign? text).getD 0 ∧ _
    cases hassign : palette.assign? text with
    | none => exact ⟨Int.le_refl 0, .inr rfl⟩
    | some color =>
      have hrange := Palette.mem_range_of_assign? hassign
      exact ⟨hrange.1, .inl hrange.2⟩
  | enum variants =>
    show (variants.idxOf? text).getD 0 < variants.length
    cases hindex : variants.idxOf? text with
    | none => exact List.length_pos_iff.2 h
    | some i => exact lt_length_of_idxOf? hindex

/-! ## Texts of changes -/

/-- A number that a text leads to lies within the bounds. -/
theorem mem_range_of_acceptInteger? {lo hi : Int} (h : lo ≤ hi) {current : Option Value}
    {text : String} {n : Int} (hn : acceptInteger? lo hi current text = some n) :
    lo ≤ n ∧ n ≤ hi := by
  unfold acceptInteger? at hn
  split at hn
  · contradiction
  · obtain rfl := Option.some.inj hn
    exact clamp_mem_range h _
  · split at hn
    · contradiction
    · obtain rfl := Option.some.inj hn
      exact clamp_mem_range h _
  · obtain ⟨m, _, rfl⟩ := Option.map_eq_some_iff.1 hn
    exact clamp_mem_range h m

/-- A color that a text leads to lies within the bounds and in the palette. -/
theorem mem_range_of_acceptColor? {lo : Int} {palette : Palette} {current : Option Value}
    {text : String} {color : Int} (h : acceptColor? lo palette current text = some color) :
    lo ≤ color ∧ 0 ≤ color ∧ color < palette.size := by
  unfold acceptColor? at h
  obtain ⟨hcolor, hbounds⟩ := Option.filter_eq_some_iff.1 h
  have hlo : lo ≤ color := by simp at hbounds; omega
  refine ⟨hlo, ?_⟩
  split at hcolor
  · contradiction
  · exact Palette.mem_range_of_shift? hcolor
  · exact Palette.mem_range_of_assign? hcolor

/-- A position that a text leads to is one of a variant. -/
theorem lt_length_of_acceptEnum? {variants : List String} {current : Option Value} {text : String}
    {index : Nat} (h : acceptEnum? variants current text = some index) :
    index < variants.length := by
  unfold acceptEnum? at h
  dsimp only at h
  split at h
  · contradiction
  · next hsize =>
    split at h
    · contradiction
    · obtain rfl := Option.some.inj h
      exact Nat.mod_lt _ (Nat.pos_of_ne_zero hsize)
    · exact lt_length_of_idxOf? h

/-- What a change's text leads to is a value of the domain. -/
theorem holds_of_accept? {d : Domain} (h : d.Valid) {current : Option Value} {text : String}
    {v : Value} (hv : d.accept? current text = some v) : d.Holds v := by
  cases d with
  | boolean =>
    obtain ⟨flag, _, rfl⟩ := Option.map_eq_some_iff.1 hv
    trivial
  | integer lo hi =>
    obtain ⟨n, hn, rfl⟩ := Option.map_eq_some_iff.1 hv
    exact mem_range_of_acceptInteger? h hn
  | string lo hi =>
    obtain rfl := Option.some.inj hv
    trivial
  | color lo palette =>
    obtain ⟨color, hcolor, rfl⟩ := Option.map_eq_some_iff.1 hv
    have hrange := mem_range_of_acceptColor? hcolor
    exact ⟨hrange.2.1, .inl hrange.2.2⟩
  | enum variants =>
    obtain ⟨index, hindex, rfl⟩ := Option.map_eq_some_iff.1 hv
    exact lt_length_of_acceptEnum? hindex

end Domain

end TypedConfig
