import TypedConfig.Proofs.Representation

/-!
# The bounds of colors

A change leads to no color beyond the bounds of an option, whatever its text is
(`Domain.mem_range_of_accept?_color`). The texts of a definition are read without the lower bound,
so an option can have a color below it from the start, and a reset can lead back to it. There is no
other way to one: the colors of an option are within its bounds for good if and only if those of its
definition are (`Body.keepsColors_of_define`).
-/

namespace TypedConfig

/-- The color that a change leads to lies within the bounds. -/
theorem Domain.mem_range_of_accept?_color {d : Domain} {current : Option Value} {text : String}
    {id : Int} (h : d.accept? current text = some (.color id)) : d.lo ≤ id ∧ id ≤ d.hi := by
  cases d with
  | color lo palette =>
    obtain ⟨color, hcolor, heq⟩ := Option.map_eq_some_iff.1 h
    obtain rfl := Value.color.inj heq
    obtain ⟨hlo, _, hsize⟩ := mem_range_of_acceptColor? hcolor
    refine ⟨hlo, ?_⟩
    show color ≤ palette.size - 1
    omega
  | string lo hi => cases h
  | boolean | integer | enum =>
    obtain ⟨_, _, heq⟩ := Option.map_eq_some_iff.1 h
    cases heq

/-! ## Colors of definitions -/

/-- The colors that the default value and the value of a definition stand for; a text that chooses
none stands for the first one. -/
def Definition.colors (d : Definition) (palette : Palette) : List Int :=
  (d.defaultText.toList ++ d.valueText.toList).map fun text => (palette.assign? text).getD 0

namespace Entry

/-- Whether each color of an option lies within its bounds. -/
def ColorsWithin (e : Entry) : Prop :=
  ∀ slot id, e.get slot = some (.color id) → e.domain.lo ≤ id ∧ id ≤ e.domain.hi

/-- How the colors of an option of a definition keep to its bounds, whatever changes it goes
through. -/
structure KeepsColors (palette : Palette) (d : Definition) (e : Entry) : Prop where
  /-- The bounds stay those of the definition and the palette. -/
  bounds : ∀ ms, (e.mutateAll ms).domain.lo = d.lo ∧
    (e.mutateAll ms).domain.hi = (palette.size : Int) - 1
  /-- No color lies above them, and one below is a color of the definition. -/
  color : ∀ ms slot id, (e.mutateAll ms).get slot = some (.color id) →
    id ≤ (palette.size : Int) - 1 ∧ (d.lo ≤ id ∨ id ∈ d.colors palette)
  /-- All colors lie within them for good if and only if those of the definition do. -/
  within_iff : (∀ ms, (e.mutateAll ms).ColorsWithin) ↔ ∀ id ∈ d.colors palette, d.lo ≤ id

/-- An option that a definition of a color makes has the colors of the definition. -/
theorem colors_of_ofDefinition? {file sectionName : String} {palette : Palette} {d : Definition}
    {e : Entry} (hkind : d.kind = .color) (h : ofDefinition? file sectionName palette d = .ok e) :
    e.domain = .color d.lo palette ∧
      ∀ id, id ∈ d.colors palette ↔ ∃ slot, e.get slot = some (.color id) := by
  obtain ⟨-, rfl⟩ := eq_of_ofDefinition? h
  have hdomain : d.domain palette = .color d.lo palette := by
    unfold Definition.domain
    rw [hkind]
  have hget {text : Option String} (id : Int) :
      (text.map (d.domain palette).convert = some (.color id)) ↔
        id ∈ text.toList.map fun text => (palette.assign? text).getD 0 := by
    have hconvert (text : String) :
        (d.domain palette).convert text = .color ((palette.assign? text).getD 0) := by
      rw [hdomain]
      rfl
    cases text with
    | none => simp
    | some text => simp [hconvert, eq_comm]
  refine ⟨hdomain, fun id => ?_⟩
  rw [Definition.colors, List.map_append, List.mem_append, ← hget, ← hget]
  constructor
  · rintro (hdefault | hvalue)
    · exact ⟨.default, hdefault⟩
    · exact ⟨.value, hvalue⟩
  · rintro ⟨_ | _, hslot⟩
    · exact .inr hslot
    · exact .inl hslot

/-- What holds of all colors within the bounds and of those that an option has, holds of those that
it has after mutations. -/
theorem color_mutateAll {e : Entry} {P : Int → Prop}
    (hwithin : ∀ id, e.domain.lo ≤ id → id ≤ e.domain.hi → P id)
    (he : ∀ slot id, e.get slot = some (.color id) → P id) (ms : List Mutation) (slot : Slot)
    (id : Int) (h : (e.mutateAll ms).get slot = some (.color id)) : P id := by
  have hkept : ∀ slot v, (e.mutateAll ms).get slot = some v → ∀ id, v = .color id → P id := by
    refine get_mutateAll ?_ ?_ ms
    · rintro current text v hv id rfl
      have hrange := Domain.mem_range_of_accept?_color hv
      exact hwithin id hrange.1 hrange.2
    · rintro slot v hv id rfl
      exact he slot id hv
  exact hkept slot _ h id rfl

/-- The option that a definition makes keeps to the bounds, as far as the definition says. -/
theorem keepsColors_of_ofDefinition? {file sectionName : String} {palette : Palette}
    {d : Definition} {e : Entry} (hkind : d.kind = .color) (hnames : palette.names ≠ [])
    (h : ofDefinition? file sectionName palette d = .ok e) : e.KeepsColors palette d := by
  obtain ⟨hdomain, hcolors⟩ := colors_of_ofDefinition? hkind h
  have hlo : e.domain.lo = d.lo := by rw [hdomain]; rfl
  have hhi : e.domain.hi = (palette.size : Int) - 1 := by rw [hdomain]; rfl
  have hbounds (ms : List Mutation) : (e.mutateAll ms).domain.lo = d.lo ∧
      (e.mutateAll ms).domain.hi = (palette.size : Int) - 1 := by
    obtain ⟨_, _, hms⟩ := mutateAll_frame e ms
    rw [hms]
    exact ⟨hlo, hhi⟩
  -- At the start there are the colors of the definition only, all of which the palette has.
  have hstart (slot : Slot) (id : Int) (hid : e.get slot = some (.color id)) :
      id ≤ (palette.size : Int) - 1 ∧ (d.lo ≤ id ∨ id ∈ d.colors palette) := by
    have hholds : (Domain.color d.lo palette).Holds (.color id) := by
      rw [← hdomain]
      exact (sound_of_ofDefinition? h).1.holds hid
    have hsize : id < palette.size := (hholds.color hnames).2.1
    exact ⟨by omega, .inr ((hcolors id).2 ⟨slot, hid⟩)⟩
  have hkept : ∀ ms slot id, (e.mutateAll ms).get slot = some (.color id) →
      id ≤ (palette.size : Int) - 1 ∧ (d.lo ≤ id ∨ id ∈ d.colors palette) := by
    refine color_mutateAll (fun id hlower hupper => ?_) hstart
    rw [hlo] at hlower
    rw [hhi] at hupper
    exact ⟨hupper, .inl hlower⟩
  refine ⟨hbounds, hkept, fun hwithin id hid => ?_, fun hwithin ms slot id hid => ?_⟩
  · obtain ⟨slot, hslot⟩ := (hcolors id).1 hid
    exact hlo ▸ (hwithin [] slot id hslot).1
  · obtain ⟨hupper, hlower⟩ := hkept ms slot id hid
    rw [(hbounds ms).1, (hbounds ms).2]
    exact ⟨hlower.elim (fun h => h) (hwithin id), hupper⟩

end Entry

namespace Body

/-- What a section adds is what the definition makes. -/
theorem ofDefinition?_of_define {b : Body} {d : Definition} {e : Entry}
    (h : (b.define d).result.2 = .ok e) :
    Entry.ofDefinition? b.file b.name b.palette d = .ok e := by
  unfold define at h
  split at h
  · cases h
  · split at h
    · cases h
    · next made hmade =>
      obtain rfl : made = e := Except.ok.inj h
      exact hmade

/-- A color that a section adds keeps to its bounds, apart from the colors of its definition. -/
theorem keepsColors_of_define {b : Body} {d : Definition} {e : Entry} (hkind : d.kind = .color)
    (hnames : b.palette.names ≠ []) (h : (b.define d).result.2 = .ok e) :
    e.KeepsColors b.palette d :=
  Entry.keepsColors_of_ofDefinition? hkind hnames (ofDefinition?_of_define h)

/-- A section without options. -/
def bare : Body where
  file := "app"
  name := "look"
  canAdd := false
  canDelete := false
  palette := .basic
  entries := []

/-- A color from green on, which starts as a given one. -/
def hueFrom (start : String) : Definition where
  name := "hue"
  kind := .color
  lo := 5
  default := some start

/-- White is such a color. -/
theorem keepsColors_white : ∃ e, (bare.define (hueFrom "white")).result.2 = .ok e ∧
    e.value = some (.color 16) ∧ ∀ ms, (e.mutateAll ms).ColorsWithin := by
  refine ⟨_, rfl, rfl, ?_⟩
  have h := keepsColors_of_define (b := bare) (d := hueFrom "white") rfl (by decide) rfl
  exact h.within_iff.2 (by decide +kernel)

/-- Red is none, and is there all the same. -/
theorem not_colorsWithin_red : ∃ e, (bare.define (hueFrom "red")).result.2 = .ok e ∧
    e.value = some (.color 3) ∧ e.domain.lo = 5 ∧ ¬ e.ColorsWithin := by
  refine ⟨_, rfl, rfl, rfl, fun hwithin => ?_⟩
  have hlo := (hwithin .value 3 rfl).1
  exact absurd hlo (by decide)

end Body

end TypedConfig
