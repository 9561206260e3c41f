import TypedConfig.Proofs.Parents

/-!
# What an option can hold

An option has its kind, its bounds and its labels from the definition that made it, for good, and
whatever becomes of it, its two values are of that kind and within these limits
(`Entry.KeepsTo`). A reset of it never fails, and each color and each variant that it has can be
shown by a name.

That options come of definitions is one of the properties that nothing takes from an option
(`Entry.Lasting`). All options of the registries that a host can bring about have all such
properties (`Registry.Reachable.upholds`).
-/

namespace TypedConfig

/-! ## Properties for good -/

/-- A property that an option has from the start, where the colors are those of a palette, and that
nothing takes from it. -/
structure Entry.Lasting (palette : Palette) (P : Entry → Prop) : Prop where
  /-- What a definition makes has it. -/
  define : ∀ {file sectionName d e}, ofDefinition? file sectionName palette d = .ok e → P e
  /-- An option that keeps its name keeps it. -/
  evolve : ∀ {e es e'}, Entry.Evolves e es e' → P e → P e'
  /-- An option with another name keeps it. -/
  rename : ∀ {e} newName, P e → P { e with name := newName }
  /-- An option whose parent has another name keeps it. -/
  redirect : ∀ {e} old new, P e → P (Registry.redirect old new e)

/-- A section whose colors are those of the palette and whose options all have a property. -/
structure Body.Upholds (palette : Palette) (P : Entry → Prop) (b : Body) : Prop where
  palette_eq : b.palette = palette
  entries : ∀ e ∈ b.entries, P e

/-- A file with such sections. -/
def Document.Upholds (palette : Palette) (P : Entry → Prop) (d : Document) : Prop :=
  ∀ s ∈ d.sections, s.toBody.Upholds palette P

/-- A registry with such files. -/
structure Registry.Upholds (palette : Palette) (P : Entry → Prop) (r : Registry) : Prop where
  palette_eq : r.env.palette = palette
  documents : ∀ d ∈ r.documents, d.Upholds palette P

variable {palette : Palette} {P : Entry → Prop}

/-- A section without options has every property of options. -/
theorem Body.upholds_of_entries_nil {b : Body} (hpalette : b.palette = palette)
    (h : b.entries = []) : b.Upholds palette P where
  palette_eq := hpalette
  entries e he := by
    rw [h] at he
    cases he

/-- A removal leaves the property to the other options. -/
theorem Body.Upholds.erase {b : Body} (h : b.Upholds palette P) (name : String) :
    { b with entries := Roster.erase name b.entries }.Upholds palette P where
  palette_eq := h.palette_eq
  entries e he := h.entries e ((Roster.erase_sublist name b.entries).subset he)

/-- An option with the property may be added. -/
theorem Body.Upholds.insert {b : Body} (h : b.Upholds palette P) {e : Entry} (he : P e) :
    { b with entries := Roster.insert e b.entries }.Upholds palette P where
  palette_eq := h.palette_eq
  entries f hf := by
    rcases Roster.mem_insert.1 hf with rfl | hf
    · exact he
    · exact h.entries f hf

/-- What becomes of a section upholds what lasts. -/
theorem Body.Evolves.upholds {b b' : Body} {es : List Event} (h : b.Evolves es b')
    (hP : Entry.Lasting palette P) (hb : b.Upholds palette P) : b'.Upholds palette P := by
  induction h with
  | silent => exact hb
  | define b d =>
    unfold Body.define
    split
    · exact hb
    · split
      · exact hb
      · next e he =>
        -- The colors are the section's own, which are those of the palette.
        rw [hb.palette_eq] at he
        exact hb.insert (hP.define he)
  | remove b name =>
    unfold Body.remove
    split
    · exact hb
    · exact hb.erase name
  | clear b => exact upholds_of_entries_nil hb.palette_eq rfl
  | change b he h =>
    refine ⟨hb.palette_eq, fun f hf => ?_⟩
    rcases Roster.mem_of_mem_replace hf with rfl | hf
    · exact hP.evolve h (hb.entries _ (Roster.mem_of_find?_eq_some he))
    · exact hb.entries f hf
  | each b f h =>
    rw [Traced.result_each]
    refine ⟨hb.palette_eq, fun e he => ?_⟩
    obtain ⟨e, hmem, rfl⟩ := List.mem_map.1 he
    exact hP.evolve (h e) (hb.entries e hmem)
  | trans _ _ ih ih' => exact ih' (ih hb)

/-- A removal leaves the property to the other sections. -/
theorem Document.Upholds.erase {d : Document} (h : d.Upholds palette P) (name : String) :
    { d with sections := Roster.erase name d.sections }.Upholds palette P :=
  fun s hs => h s ((Roster.erase_sublist name d.sections).subset hs)

/-- A section with the property may be added. -/
theorem Document.Upholds.insert {d : Document} (h : d.Upholds palette P) {s : Section}
    (hs : s.toBody.Upholds palette P) :
    { d with sections := Roster.insert s d.sections }.Upholds palette P := by
  intro t ht
  rcases Roster.mem_insert.1 ht with rfl | ht
  · exact hs
  · exact h t ht

/-- What becomes of a file upholds what lasts. -/
theorem Document.EvolvesIn.upholds {names : String → Prop} {d d' : Document} {es : List Event}
    (h : d.EvolvesIn names palette es d') (hP : Entry.Lasting palette P)
    (hd : d.Upholds palette P) : d'.Upholds palette P := by
  induction h with
  | silent | note | setReloading => exact hd
  | inSection d hs h =>
    intro t ht
    rcases Roster.mem_of_mem_replace ht with rfl | ht
    · exact h.2.upholds hP (hd _ (Roster.mem_of_find?_eq_some hs))
    · exact hd t ht
  | eachSection d f h =>
    rw [Traced.result_each]
    intro s hs
    obtain ⟨s, hmem, rfl⟩ := List.mem_map.1 hs
    exact (h s).2.upholds hP (hd s hmem)
  | addSection d definition =>
    unfold Document.addSection
    split
    · exact hd
    · split
      · exact hd
      · next t ht =>
        obtain rfl := Section.eq_of_ofDefinition? ht
        exact hd.insert (Body.upholds_of_entries_nil rfl rfl)
  | removeSection d name =>
    unfold Document.removeSection
    split
    · exact hd
    · exact hd.erase name
  | setVersion d version =>
    unfold Document.setVersion
    split <;> exact hd
  | trans _ _ ih ih' => exact ih' (ih hd)

namespace Registry

/-- A change of all options upholds what it takes from none. -/
theorem Upholds.mapEntries {r : Registry} (h : r.Upholds palette P) {f : Entry → Entry}
    (hf : ∀ e, P e → P (f e)) : (r.mapEntries f).Upholds palette P where
  palette_eq := h.palette_eq
  documents d hd s hs := by
    obtain ⟨c, hc, rfl⟩ := List.mem_map.1 hd
    obtain ⟨t, ht, rfl⟩ := List.mem_map.1 hs
    have hbody := h.documents c hc t ht
    refine ⟨hbody.palette_eq, fun e he => ?_⟩
    obtain ⟨f, hmem, rfl⟩ := List.mem_map.1 he
    exact hf f (hbody.entries f hmem)

/-- A section's options may be exchanged for others that have the property. -/
theorem Upholds.putEntries {r : Registry} (h : r.Upholds palette P) {d : Document} {s : Section}
    {entries : List Entry} (hd : d ∈ r.documents) (hs : s ∈ d.sections)
    (hentries : ∀ e ∈ entries, P e) : (r.putEntries d s entries).Upholds palette P where
  palette_eq := h.palette_eq
  documents c hc t ht := by
    rcases Roster.mem_of_mem_replace hc with rfl | hc
    · rcases Roster.mem_of_mem_replace ht with rfl | ht
      · exact ⟨(h.documents d hd s hs).palette_eq, hentries⟩
      · exact h.documents d hd t ht
    · exact h.documents c hc t ht

/-- What becomes of a registry upholds what lasts. -/
theorem EvolvesIn.upholds {names : String → Prop} {renames : Prop} {r s : Registry}
    {es : List Event} (h : r.EvolvesIn names renames es s) (hP : Entry.Lasting palette P)
    (hr : r.Upholds palette P) : s.Upholds palette P := by
  induction h with
  | silent => exact hr
  | inDocument r hd h =>
    rw [hr.palette_eq] at h
    refine ⟨hr.palette_eq, fun c hc => ?_⟩
    rcases Roster.mem_of_mem_replace hc with rfl | hc
    · exact h.upholds hP (hr.documents _ (Roster.mem_of_find?_eq_some hd))
    · exact hr.documents c hc
  | addFile r name =>
    unfold Registry.addFile
    dsimp only
    split
    · exact hr
    · split
      · exact hr
      · next d hd =>
        obtain rfl := Document.eq_of_ofName? hd
        refine ⟨hr.palette_eq, fun c hc => ?_⟩
        rcases Roster.mem_insert.1 hc with rfl | hc
        · exact nofun
        · exact hr.documents c hc
  | removeFile r name =>
    unfold Registry.removeFile
    split
    · exact hr
    · exact ⟨hr.palette_eq,
        fun d hd => hr.documents d ((Roster.erase_sublist name r.documents).subset hd)⟩
  | clear r => exact ⟨hr.palette_eq, nofun⟩
  | setSettings r settings =>
    unfold Registry.setSettings
    split <;> exact ⟨hr.palette_eq, hr.documents⟩
  | rename r path newName =>
    rcases renameOption_cases r path newName with hsame | ⟨a, d, s, e, _, hd, hs, he, _, _, hres⟩
    · rw [hsame]
      exact hr
    · rw [hres]
      have hdmem := Roster.mem_of_find?_eq_some hd
      have hsmem := Roster.mem_of_find?_eq_some hs
      have hentries := (hr.documents d hdmem s hsmem).entries
      -- One option of the section has its new name, and all that inherit from it are redirected.
      refine (hr.putEntries hdmem hsmem fun f hf => ?_).mapEntries fun f => hP.redirect _ _
      rcases Roster.mem_insert.1 hf with rfl | hf
      · exact hP.rename newName (hentries e (Roster.mem_of_find?_eq_some he))
      · exact hentries f ((Roster.erase_sublist a.option s.entries).subset hf)
  | trans _ _ ih ih' => exact ih' (ih hr)

/-- The options of a registry that a host can bring about have all properties that last. -/
theorem Reachable.upholds {r : Registry} (h : r.Reachable) (hP : Entry.Lasting r.env.palette P)
    {e : Entry} (he : e ∈ r.entries) : P e := by
  obtain ⟨env, es, hevolves⟩ := h.evolves
  have hpalette : env.palette = r.env.palette := hevolves.env_eq.1.symm
  have hr := hevolves.upholds hP ⟨hpalette, nofun⟩
  obtain ⟨d, hd, s, hs, he⟩ := mem_entries_iff.1 he
  exact (hr.documents d hd s hs).entries e he

end Registry

/-! ## Values of a domain -/

namespace Domain

variable {d : Domain}

/-- The bounds of a valid domain are in order, whatever its kind. -/
theorem Valid.lo_le_hi (h : d.Valid) : d.lo ≤ d.hi := by
  cases d with
  | enum variants =>
    have hpos : 0 < variants.length := List.length_pos_iff.2 h
    show (0 : Int) ≤ variants.length - 1
    omega
  | _ => exact h

/-- A value of a domain is of its kind. -/
theorem Holds.kind_eq {v : Value} (h : d.Holds v) : v.kind = d.kind := by
  cases d <;> cases v <;> first | rfl | exact h.elim

/-- A number of a domain lies between the bounds. -/
theorem Holds.integer {n : Int} (h : d.Holds (.integer n)) : d.lo ≤ n ∧ n ≤ d.hi := by
  cases d with
  | integer lo hi => exact h
  | _ => exact h.elim

/-- A position has a variant, which is its text. -/
theorem Holds.enum {index : Nat} (h : d.Holds (.enum index)) :
    index < d.variants.length ∧ d.variants[index]? = some (d.format (.enum index)) := by
  cases d with
  | enum variants =>
    have hlt : index < variants.length := h
    refine ⟨hlt, ?_⟩
    show variants[index]? = some (variants[index]?.getD "")
    rw [List.getElem?_eq_getElem hlt, Option.getD_some]
  | _ => exact h.elim

/-- A color of a palette that is not empty has a name, which is its text. -/
theorem Holds.color {id : Int} (h : d.Holds (.color id)) (hnames : d.palette.names ≠ []) :
    0 ≤ id ∧ id < d.palette.size ∧ d.palette.name? id = some (d.format (.color id)) := by
  cases d with
  | color lo palette =>
    have hpos : 0 < palette.names.length := List.length_pos_iff.2 hnames
    obtain ⟨hnonneg, hsize⟩ : 0 ≤ id ∧ (id < palette.names.length ∨ id = 0) := h
    -- The first color is there as well, since the palette has one.
    have hlt : id.toNat < palette.names.length := by omega
    have hname : palette.name? id = some palette.names[id.toNat] := by
      unfold Palette.name?
      rw [if_pos hnonneg, List.getElem?_eq_getElem hlt]
    refine ⟨hnonneg, ?_, ?_⟩
    · show id < palette.names.length
      omega
    · show palette.name? id = some ((palette.name? id).getD _)
      rw [hname, Option.getD_some]
  | _ => exact h.elim

end Domain

namespace Definition

/-- The kind of a definition's options is its own, but for integers with labels, which are enums. -/
theorem kind_domain (d : Definition) (palette : Palette) :
    (d.domain palette).kind =
      if d.kind = .integer ∧ d.labels ≠ [] then .enum else d.kind := by
  unfold domain
  cases d.kind with
  | integer => cases d.labels <;> simp [Domain.kind]
  | _ => simp [Domain.kind]

/-- Colors are those of the palette. -/
theorem palette_domain {d : Definition} {palette : Palette}
    (h : (d.domain palette).kind = .color) : (d.domain palette).palette = palette := by
  have hkind : d.kind = .color := by
    rw [kind_domain] at h
    split at h
    · cases h
    · exact h
  unfold domain
  rw [hkind]
  rfl

/-- Variants are the labels. -/
theorem variants_domain {d : Definition} {palette : Palette}
    (h : (d.domain palette).kind = .enum) : (d.domain palette).variants = d.labels := by
  rw [kind_domain] at h
  unfold domain
  split at h
  · next hlabels =>
    rw [hlabels.1]
    dsimp only
    rw [if_neg fun hempty => hlabels.2 (List.isEmpty_iff.1 hempty)]
    rfl
  · rw [h]
    rfl

end Definition

/-! ## Options and their definitions -/

namespace Entry

/-- The option comes of an accepted definition: it differs from what the definition makes in its
name and its parent at most, which renames exchange, and in what its own changes are about. -/
def ComesOf (palette : Palette) (d : Definition) (e : Entry) : Prop :=
  ∃ made, ofDefinition? e.file e.sectionName palette d = .ok made ∧
    ∃ name parent default value loaded knownParent,
      e = { made with name, parent, default, value, loaded, knownParent }

/-- Wherever options come of definitions, they do so for good. -/
theorem lasting_comesOf (palette : Palette) :
    Lasting palette fun e => ∃ d, e.ComesOf palette d where
  define {file sectionName d e} h := by
    obtain ⟨_, hfile, hsection, _⟩ := sound_of_ofDefinition? h
    subst hfile
    subst hsection
    exact ⟨d, e, h, _, _, _, _, _, _, rfl⟩
  evolve h := by
    rintro ⟨d, made, hmade, name, parent, _, _, _, _, rfl⟩
    obtain ⟨_, _, _, _, rfl⟩ := h.frame
    exact ⟨d, made, hmade, name, parent, _, _, _, _, rfl⟩
  rename newName := by
    rintro ⟨d, made, hmade, _, parent, _, _, _, _, rfl⟩
    exact ⟨d, made, hmade, newName, parent, _, _, _, _, rfl⟩
  redirect old new := by
    rintro ⟨d, made, hmade, name, _, _, _, _, _, rfl⟩
    unfold Registry.redirect
    split <;> exact ⟨d, made, hmade, name, _, _, _, _, _, rfl⟩

/-- What the two values of an option keep to, where a definition has made it. -/
structure KeepsTo (palette : Palette) (d : Definition) (e : Entry) : Prop where
  /-- It is an option of this definition. -/
  comesOf : e.ComesOf palette d
  /-- Its kind, its bounds and its labels are those of the definition. -/
  domain : e.domain = d.domain palette
  /-- An integer with labels has become an enum. -/
  kind : e.domain.kind = if d.kind = .integer ∧ d.labels ≠ [] then .enum else d.kind
  /-- Its value and its default value are null or of its kind. -/
  ofKind : ∀ slot v, e.get slot = some v → v.kind = e.domain.kind
  /-- Its bounds are in order. -/
  ordered : e.domain.lo ≤ e.domain.hi
  /-- Each integer lies between the bounds. -/
  integer : ∀ slot n, e.get slot = some (.integer n) → e.domain.lo ≤ n ∧ n ≤ e.domain.hi
  /-- Each position is one of a label, which is its text. -/
  enum : ∀ slot index, e.get slot = some (.enum index) → index < d.labels.length ∧
    d.labels[index]? = some (e.domain.format (.enum index)) ∧
    e.asString (e.get slot) = some (e.domain.format (.enum index))
  /-- Each color is one of the palette, and its name there is its text. -/
  color : ∀ slot id, e.get slot = some (.color id) → 0 ≤ id ∧ id < palette.size ∧
    palette.name? id = some (e.domain.format (.color id))
  /-- Without null in the definition no value is null. -/
  filled : d.nullable = false → ∀ slot, (e.get slot).isSome
  /-- A reset succeeds. -/
  reset : ∃ outcome, e.reset.result.2 = .ok outcome

/-- A sound option may hold what is in its slots. -/
theorem Sound.mayHold {e : Entry} (h : e.Sound) (slot : Slot) : e.MayHold (e.get slot) := by
  cases slot with
  | value => exact h.value
  | default => exact h.default

/-- A value that an option has is one of its domain. -/
theorem Sound.holds {e : Entry} (h : e.Sound) {slot : Slot} {v : Value} (hv : e.get slot = some v) :
    e.domain.Holds v := by
  have hmay := h.mayHold slot
  rw [hv] at hmay
  exact hmay

/-- What a definition has made keeps its domain, its labels and whether null is allowed. -/
theorem ComesOf.traits {d : Definition} {e : Entry} (h : e.ComesOf palette d) :
    e.domain = d.domain palette ∧ e.labels = d.labels ∧ e.nullable = d.nullable := by
  obtain ⟨made, hmade, name, parent, _, _, _, _, he⟩ := h
  obtain ⟨-, rfl⟩ := eq_of_ofDefinition? hmade
  rw [he]
  exact ⟨rfl, rfl, rfl⟩

/-- A sound option keeps to the definition that it comes of. -/
theorem Sound.keepsTo {d : Definition} {e : Entry} (h : e.Sound) (hd : e.ComesOf palette d)
    (hnames : palette.names ≠ []) : e.KeepsTo palette d := by
  obtain ⟨hdomain, hlabels, hnullable⟩ := hd.traits
  exact {
    comesOf := hd
    domain := hdomain
    kind := by rw [hdomain, Definition.kind_domain]
    ofKind := fun slot v hv => (h.holds hv).kind_eq
    ordered := h.domain.lo_le_hi
    integer := fun slot n hn => (h.holds hn).integer
    -- The list of an option that holds a place in it is that of the definition, as its palette is
    -- where it holds a color: other kinds keep neither.
    enum := by
      intro slot index hindex
      have hholds := h.holds hindex
      have hkind : (d.domain palette).kind = .enum := by rw [← hdomain, ← hholds.kind_eq]; rfl
      have hvariants : e.domain.variants = d.labels := by
        rw [hdomain, Definition.variants_domain hkind]
      obtain ⟨hlt, htext⟩ := hholds.enum
      rw [hvariants] at hlt htext
      refine ⟨hlt, htext, ?_⟩
      rw [hindex]
      show e.labels[index]? = _
      rw [hlabels, htext]
    color := by
      intro slot id hid
      have hholds := h.holds hid
      have hkind : (d.domain palette).kind = .color := by rw [← hdomain, ← hholds.kind_eq]; rfl
      have hpalette : e.domain.palette = palette := by
        rw [hdomain, Definition.palette_domain hkind]
      have hcolor := hholds.color (hpalette ▸ hnames)
      rw [hpalette] at hcolor
      exact hcolor
    filled := by
      intro hnull slot
      have hmay := h.mayHold slot
      cases hv : e.get slot with
      | some v => rfl
      | none =>
        rw [hv] at hmay
        have hnull' : e.nullable = true := hmay
        rw [hnullable, hnull] at hnull'
        cases hnull'
    reset := by
      rw [h.reset_eq_store]
      exact e.store_isOk .value e.default }

end Entry

/-- The options of a registry that a host can bring about are sound. -/
theorem Registry.Reachable.sound {r : Registry} (hr : r.Reachable) {e : Entry}
    (he : e ∈ r.entries) : e.Sound := by
  obtain ⟨c, hc, s, hs, hmem⟩ := mem_entries_iff.1 he
  exact (((hr.wellFormed.documents c hc).sections s hs).entries e hmem).sound

/-- In a registry that a host can bring about, with at least one color, every option keeps to an
accepted definition. -/
theorem Registry.exists_keepsTo {r : Registry} (hr : r.Reachable)
    (hnames : r.env.palette.names ≠ []) {e : Entry} (he : e ∈ r.entries) :
    ∃ d, e.KeepsTo r.env.palette d := by
  obtain ⟨d, hd⟩ := hr.upholds (Entry.lasting_comesOf r.env.palette) he
  exact ⟨d, (hr.sound he).keepsTo hd hnames⟩

/-- A run that makes a color and a number with labels, and moves both on past the end of what they
may be. -/
def turning : List Operation :=
  [.addFile "app", .addSection "app" { name := "look" },
    .edit "app" "look"
      (.define { name := "hue", kind := .color, default := some "white" } fun _ =>
        .define { name := "mode", kind := .integer, labels := ["dark", "light"],
                  default := some "light" } fun _ => .finish (.ok ())),
    .mutate "app.look.hue" (.set (some "++3")), .mutate "app.look.mode" (.set (some "++1"))]

/-- What `turning` leads to. -/
def turned : Registry :=
  (Registry.run turning { env := { dir := "/etc" } } {}).result.1

/-- Both are back near the start of their lists, and the number is an enum. -/
theorem Registry.exists_keepsTo_turned :
    turned.entries.map (fun e => (e.name, e.domain.kind, e.value, e.valueText)) =
        [("hue", .color, some (.color 2), some "darkgray"),
          ("mode", .enum, some (.enum 0), some "dark")] ∧
      ∀ e ∈ turned.entries, ∃ d, e.KeepsTo turned.env.palette d := by
  have hreachable : turned.Reachable := by
    unfold turned
    exact ⟨{ dir := "/etc" }, turning, {}, rfl⟩
  have hnames : turned.env.palette.names ≠ [] := by decide +kernel
  exact ⟨by decide +kernel, fun e he => Registry.exists_keepsTo hreachable hnames he⟩

end TypedConfig
