import TypedConfig.Proofs.Evolution.Registry
import TypedConfig.Proofs.Options

/-!
# Well-formed registries

In a well-formed registry the files, the sections of each file and the options of each section are
sorted by name, each thing carries the names of its owners, names are not empty, versions have 32
bits, and every option is sound. Each primitive change keeps this
(`Body.Evolves.wellFormed`, `Document.EvolvesIn.wellFormed`, `Registry.EvolvesIn.wellFormed`), so
all registries that a host can bring about are well-formed (`Registry.Reachable.wellFormed`).
-/

namespace TypedConfig

/-- A sound option that carries the names of its owners and a name of its own. -/
structure Entry.WellFormed (file sectionName : String) (e : Entry) : Prop where
  sound : e.Sound
  file_eq : e.file = file
  sectionName_eq : e.sectionName = sectionName
  name_ne : e.name ≠ ""

/-- A section with sorted, well-formed options. -/
structure Body.WellFormed (b : Body) : Prop where
  sorted : Roster.Sorted b.entries
  entries : ∀ e ∈ b.entries, e.WellFormed b.file b.name

/-- A file with sorted, well-formed sections that carry its name, and with a version of 32 bits. -/
structure Document.WellFormed (d : Document) : Prop where
  sorted : Roster.Sorted d.sections
  owner : ∀ s ∈ d.sections, s.file = d.name
  sections : ∀ s ∈ d.sections, s.toBody.WellFormed
  version_pos : 1 ≤ d.version
  version_le : d.version ≤ Numeral.word32Greatest

/-- A registry with sorted, well-formed files. -/
structure Registry.WellFormed (r : Registry) : Prop where
  sorted : Roster.Sorted r.documents
  documents : ∀ d ∈ r.documents, d.WellFormed

/-! ## Options -/

/-- What becomes of a well-formed option is well-formed. -/
theorem Entry.Evolves.wellFormed {e e' : Entry} {es : List Event} {file sectionName : String}
    (h : e.Evolves es e') (he : e.WellFormed file sectionName) :
    e'.WellFormed file sectionName := by
  have hsound := h.sound he.sound
  obtain ⟨_, _, _, _, rfl⟩ := h.frame
  exact ⟨hsound, he.file_eq, he.sectionName_eq, he.name_ne⟩

/-- An option keeps its name. -/
theorem Entry.Evolves.name_eq {e e' : Entry} {es : List Event} (h : e.Evolves es e') :
    e'.name = e.name := by
  obtain ⟨_, _, _, _, rfl⟩ := h.frame
  rfl

/-- The empty text is blank. -/
theorem ne_empty_of_not_blank {s : String} (h : Text.isBlankText s = false) : s ≠ "" := by
  rintro rfl
  exact absurd h (by decide)

/-- What a definition makes in a section is well-formed. -/
theorem Entry.wellFormed_of_ofDefinition? {file sectionName : String} {palette : Palette}
    {d : Definition} {e : Entry} (h : Entry.ofDefinition? file sectionName palette d = .ok e) :
    e.WellFormed file sectionName ∧ e.name = d.plainName := by
  obtain ⟨hsound, hfile, hsection, hname, hblank⟩ := Entry.sound_of_ofDefinition? h
  exact ⟨⟨hsound, hfile, hsection, ne_empty_of_not_blank hblank⟩, hname⟩

/-! ## Sections -/

namespace Body

/-- An option of the section is replaced by one of its name. -/
theorem WellFormed.replace {b : Body} (h : b.WellFormed) {e : Entry}
    (he : e.WellFormed b.file b.name) :
    { b with entries := Roster.replace e.name e b.entries }.WellFormed where
  sorted := h.sorted.replace rfl
  entries f hf := by
    rcases Roster.mem_of_mem_replace hf with rfl | hf
    · exact he
    · exact h.entries f hf

/-- All options are changed, each under its name. -/
theorem WellFormed.map {b : Body} (h : b.WellFormed) (f : Entry → Entry)
    (hname : ∀ e, (f e).name = e.name)
    (hf : ∀ e, e.WellFormed b.file b.name → (f e).WellFormed b.file b.name) :
    { b with entries := b.entries.map f }.WellFormed where
  sorted := h.sorted.of_names_eq (Roster.names_map hname _)
  entries e he := by
    obtain ⟨e, hmem, rfl⟩ := List.mem_map.1 he
    exact hf e (h.entries e hmem)

/-- An option of a new name is added. -/
theorem WellFormed.insert {b : Body} (h : b.WellFormed) {e : Entry}
    (he : e.WellFormed b.file b.name) (hnew : b.entry? e.name = none) :
    { b with entries := Roster.insert e b.entries }.WellFormed where
  sorted := h.sorted.insert hnew
  entries f hf := by
    rcases Roster.mem_insert.1 hf with rfl | hf
    · exact he
    · exact h.entries f hf

/-- A section stays well-formed when an option is removed. -/
theorem WellFormed.erase {b : Body} (h : b.WellFormed) (name : String) :
    { b with entries := Roster.erase name b.entries }.WellFormed where
  sorted := h.sorted.erase name
  entries e he := h.entries e ((Roster.erase_sublist name b.entries).subset he)

/-- A section without options is well-formed. -/
theorem wellFormed_of_entries_nil {b : Body} (h : b.entries = []) : b.WellFormed where
  sorted := by
    rw [h]
    exact List.Pairwise.nil
  entries e he := by
    rw [h] at he
    cases he

/-- What becomes of a well-formed section is well-formed. -/
theorem Evolves.wellFormed {b b' : Body} {es : List Event} (h : b.Evolves es b')
    (hb : b.WellFormed) : b'.WellFormed := by
  induction h with
  | silent => exact hb
  | define b d =>
    unfold Body.define
    split
    · exact hb
    · next hnew =>
      split
      · exact hb
      · next e he =>
        obtain ⟨hwell, hname⟩ := Entry.wellFormed_of_ofDefinition? he
        exact hb.insert hwell (by simpa [hname] using hnew)
  | remove b name =>
    unfold Body.remove
    split
    · exact hb
    · exact hb.erase name
  | clear b => exact wellFormed_of_entries_nil rfl
  | change b he h =>
    -- The option keeps its name, so it takes its own place in the order.
    obtain rfl := Roster.name_of_find?_eq_some he
    have hwell := h.wellFormed (hb.entries _ (Roster.mem_of_find?_eq_some he))
    have hreplace := hb.replace hwell
    rw [h.name_eq] at hreplace
    exact hreplace
  | each b f h =>
    rw [Traced.result_each]
    exact hb.map _ (fun e => (h e).name_eq) fun e he => (h e).wellFormed he
  | trans _ _ ih ih' => exact ih' (ih hb)

end Body

/-! ## Files -/

namespace Document

/-- A section of the file is replaced by one of its name. -/
theorem WellFormed.replace {d : Document} (h : d.WellFormed) {s : Section}
    (howner : s.file = d.name) (hs : s.toBody.WellFormed) :
    { d with sections := Roster.replace s.name s d.sections }.WellFormed where
  sorted := h.sorted.replace rfl
  owner t ht := by
    rcases Roster.mem_of_mem_replace ht with rfl | ht
    · exact howner
    · exact h.owner t ht
  sections t ht := by
    rcases Roster.mem_of_mem_replace ht with rfl | ht
    · exact hs
    · exact h.sections t ht
  version_pos := h.version_pos
  version_le := h.version_le

/-- All sections are changed, each under its names. -/
theorem WellFormed.map {d : Document} (h : d.WellFormed) (f : Section → Section)
    (hnames : ∀ s, (f s).file = s.file ∧ (f s).name = s.name)
    (hf : ∀ s, s.toBody.WellFormed → (f s).toBody.WellFormed) :
    { d with sections := d.sections.map f }.WellFormed where
  sorted := h.sorted.of_names_eq (Roster.names_map (fun s => (hnames s).2) _)
  owner s hs := by
    obtain ⟨s, hmem, rfl⟩ := List.mem_map.1 hs
    exact (hnames s).1.trans (h.owner s hmem)
  sections s hs := by
    obtain ⟨s, hmem, rfl⟩ := List.mem_map.1 hs
    exact hf s (h.sections s hmem)
  version_pos := h.version_pos
  version_le := h.version_le

/-- A new section is empty and carries the names that it was asked for with. -/
theorem addSection_wellFormed {d : Document} (h : d.WellFormed) (palette : Palette)
    (s : SectionDefinition) : (d.addSection palette s).1.WellFormed := by
  unfold Document.addSection
  split
  · exact h
  · next hnew =>
    split
    · exact h
    · next t ht =>
      obtain rfl := Section.eq_of_ofDefinition? ht
      have hnone : d.section? s.name = none := by simpa using hnew
      refine ⟨h.sorted.insert hnone, ?_, ?_, h.version_pos, h.version_le⟩
      · intro t ht
        rcases Roster.mem_insert.1 ht with rfl | ht
        · rfl
        · exact h.owner t ht
      · intro t ht
        rcases Roster.mem_insert.1 ht with rfl | ht
        · exact Body.wellFormed_of_entries_nil rfl
        · exact h.sections t ht

/-- What becomes of a well-formed file is well-formed. -/
theorem EvolvesIn.wellFormed {names : String → Prop} {palette : Palette} {d d' : Document}
    {es : List Event} (h : d.EvolvesIn names palette es d') (hd : d.WellFormed) :
    d'.WellFormed := by
  induction h with
  | silent => exact hd
  | inSection d hs h =>
    obtain rfl := Roster.name_of_find?_eq_some hs
    have hmem := Roster.mem_of_find?_eq_some hs
    have hreplace := hd.replace (h.names_eq.1.trans (hd.owner _ hmem))
      (h.2.wellFormed (hd.sections _ hmem))
    rw [h.names_eq.2] at hreplace
    exact hreplace
  | eachSection d f h =>
    rw [Traced.result_each]
    exact hd.map _ (fun s => (h s).names_eq) fun s hs => (h s).2.wellFormed hs
  | addSection d s => exact addSection_wellFormed hd palette s
  | removeSection d name =>
    unfold Document.removeSection
    split
    · exact hd
    · have hsub := (Roster.erase_sublist name d.sections).subset
      exact ⟨hd.sorted.erase name, fun s hs => hd.owner s (hsub hs),
        fun s hs => hd.sections s (hsub hs), hd.version_pos, hd.version_le⟩
  | setVersion d version =>
    unfold Document.setVersion
    split
    · next hverify =>
      have hrange := Check.verify_eq_ok_iff.1 hverify _ (List.mem_singleton.2 rfl)
      have hbounds : 1 ≤ version ∧ version ≤ Numeral.word32Greatest := by
        simp only [Check.inRange] at hrange
        split at hrange
        · contradiction
        · omega
      exact ⟨hd.sorted, hd.owner, hd.sections, hbounds.1, hbounds.2⟩
    · exact hd
  | note | setReloading =>
    exact ⟨hd.sorted, hd.owner, hd.sections, hd.version_pos, hd.version_le⟩
  | trans _ _ ih ih' => exact ih' (ih hd)

end Document

/-! ## Registries -/

namespace Registry

/-- A file is replaced by one of its name. -/
theorem WellFormed.replace {r : Registry} (h : r.WellFormed) {d : Document} (hd : d.WellFormed) :
    { r with documents := Roster.replace d.name d r.documents }.WellFormed where
  sorted := h.sorted.replace rfl
  documents e he := by
    rcases Roster.mem_of_mem_replace he with rfl | he
    · exact hd
    · exact h.documents e he

/-- All options are changed, each under its name. -/
theorem WellFormed.mapEntries {r : Registry} (h : r.WellFormed) (f : Entry → Entry)
    (hname : ∀ e, (f e).name = e.name)
    (hf : ∀ file sectionName e, e.WellFormed file sectionName →
      (f e).WellFormed file sectionName) : (r.mapEntries f).WellFormed where
  sorted := h.sorted.of_names_eq (Roster.names_map (fun _ => by rfl) _)
  documents d hd := by
    obtain ⟨d, hmem, rfl⟩ := List.mem_map.1 hd
    exact (h.documents d hmem).map _ (fun s => ⟨rfl, rfl⟩)
      fun s hs => hs.map f hname fun e he => hf _ _ e he

/-- What becomes of an option when another one is renamed is well-formed. -/
theorem wellFormed_redirect {file sectionName : String} {e : Entry}
    (h : e.WellFormed file sectionName) (old new : String) :
    (redirect old new e).WellFormed file sectionName := by
  unfold redirect
  split <;> exact ⟨⟨h.sound.domain, h.sound.value, h.sound.default⟩, h.file_eq, h.sectionName_eq,
    h.name_ne⟩

/-- A section of a file gets other options. -/
theorem WellFormed.putEntries {r : Registry} (h : r.WellFormed) {d : Document} {s : Section}
    {entries : List Entry} (hd : d ∈ r.documents) (hs : s ∈ d.sections)
    (hentries : { s.toBody with entries }.WellFormed) : (r.putEntries d s entries).WellFormed :=
  have howner : s.file = d.name := (h.documents d hd).owner s hs
  h.replace ((h.documents d hd).replace (s := { s with entries }) howner hentries)

/-- A new file is empty, and its name is that of the definition. -/
theorem addFile_wellFormed {r : Registry} (h : r.WellFormed) (name : String) :
    (r.addFile name).1.WellFormed := by
  unfold Registry.addFile
  dsimp only
  split
  · exact h
  · next hnew =>
    split
    · exact h
    · next d hd =>
      obtain rfl := Document.eq_of_ofName? hd
      have hnone : r.document? (Document.splitPriority name).2 = none := by simpa using hnew
      refine ⟨h.sorted.insert hnone, fun e he => ?_⟩
      rcases Roster.mem_insert.1 he with rfl | he
      · exact ⟨.nil, nofun, nofun, Nat.le_refl 1, (by decide : 1 ≤ Numeral.word32Greatest)⟩
      · exact h.documents e he

/-- What becomes of a well-formed registry is well-formed. -/
theorem EvolvesIn.wellFormed {names : String → Prop} {renames : Prop} {r s : Registry}
    {es : List Event} (h : r.EvolvesIn names renames es s) (hr : r.WellFormed) :
    s.WellFormed := by
  induction h with
  | silent => exact hr
  | inDocument r hd h =>
    obtain rfl := Roster.name_of_find?_eq_some hd
    have hwell := h.wellFormed (hr.documents _ (Roster.mem_of_find?_eq_some hd))
    have hreplace := hr.replace hwell
    rw [h.name_eq] at hreplace
    exact hreplace
  | addFile r name => exact addFile_wellFormed hr name
  | removeFile r name =>
    unfold Registry.removeFile
    split
    · exact hr
    · have hsub := (Roster.erase_sublist name r.documents).subset
      exact ⟨hr.sorted.erase name, fun d hd => hr.documents d (hsub hd)⟩
  | clear r => exact ⟨.nil, nofun⟩
  | setSettings r settings =>
    unfold Registry.setSettings
    split
    · exact ⟨hr.sorted, hr.documents⟩
    · exact hr
  | rename r path newName =>
    rcases renameOption_cases r path newName with
      hsame | ⟨a, d, s, e, _, hd, hs, he, hne, hnew, hres⟩
    · rw [hsame]
      exact hr
    · rw [hres]
      have hdmem := Roster.mem_of_find?_eq_some hd
      have hsmem := Roster.mem_of_find?_eq_some hs
      have hbody := (hr.documents d hdmem).sections s hsmem
      have hentry := hbody.entries e (Roster.mem_of_find?_eq_some he)
      -- The new name is free before the option gives up its old one, and so it is afterwards.
      have hfree : Roster.find? newName (Roster.erase a.option s.entries) = none := by
        have hnone := Roster.find?_eq_none.1 hnew
        exact Roster.find?_eq_none.2 fun f hf =>
          hnone f ((Roster.erase_sublist a.option s.entries).subset hf)
      have hinsert := (hbody.erase a.option).insert (e := { e with name := newName })
        ⟨⟨hentry.sound.domain, hentry.sound.value, hentry.sound.default⟩, hentry.file_eq,
          hentry.sectionName_eq, hne⟩ hfree
      refine (hr.putEntries hdmem hsmem hinsert).mapEntries _ (fun f => ?_)
        fun _ _ f hf => wellFormed_redirect hf _ _
      unfold redirect
      split <;> rfl
  | trans _ _ ih ih' => exact ih' (ih hr)

/-- Every registry that a host can bring about is well-formed. -/
theorem Reachable.wellFormed {r : Registry} (h : r.Reachable) : r.WellFormed := by
  obtain ⟨env, es, hevolves⟩ := h.evolves
  exact hevolves.wellFormed ⟨.nil, nofun⟩

end Registry

end TypedConfig
