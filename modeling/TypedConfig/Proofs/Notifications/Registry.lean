import TypedConfig.Proofs.Notifications
import TypedConfig.Proofs.Renaming

/-!
# Listeners of a registry

Where no file or section name holds a dot, files and sections have paths of their own, so what is
reported of one of them is right in the registry (`Registry.EvolvesIn.reports`).
-/

namespace TypedConfig

/-- A name without a dot. -/
def Undotted (name : String) : Prop :=
  '.' ∉ name.toList

/-! ## Files -/

namespace Document

/-- All options of a file. -/
def entries (d : Document) : List Entry :=
  d.sections.flatMap fun s => s.entries

/-- The paths of a file, whatever its sections. -/
def Owns (d : Document) (path : String) : Prop :=
  ∃ sectionName option, Undotted sectionName ∧ path = Address.path ⟨d.name, sectionName, option⟩

/-- A well-formed file whose paths lead back to its sections. -/
structure Legible (d : Document) : Prop where
  wellFormed : d.WellFormed
  name : Undotted d.name
  admits : d.Admits Undotted

/-- A file stays legible, where no section gets a name with a dot. -/
theorem EvolvesIn.legible {palette : Palette} {d d' : Document} {es : List Event}
    (h : d.EvolvesIn Undotted palette es d') (hd : d.Legible) : d'.Legible where
  wellFormed := h.wellFormed hd.wellFormed
  name := by
    rw [h.name_eq]
    exact hd.name
  admits := h.admits hd.admits

namespace Legible

variable {d : Document}

/-- The paths of its sections are those of the file. -/
theorem owns_of_section (h : d.Legible) {s : Section} (hs : s ∈ d.sections) {path : String}
    (hpath : s.Owns path) : d.Owns path := by
  obtain ⟨option, rfl⟩ := hpath
  refine ⟨s.name, option, h.admits.sections s hs, ?_⟩
  unfold Body.path
  rw [h.wellFormed.owner s hs]

/-- Sections of different names have different paths. -/
theorem not_owns (h : d.Legible) {s t : Section} (hs : s ∈ d.sections) (ht : t ∈ d.sections)
    (hne : s.name ≠ t.name) {path : String} (hpath : s.Owns path) : ¬t.Owns path := by
  rintro ⟨option', hpath'⟩
  obtain ⟨option, hpath⟩ := hpath
  have heq : Address.path ⟨s.file, s.name, option⟩ = Address.path ⟨t.file, t.name, option'⟩ :=
    hpath.symm.trans hpath'
  rw [h.wellFormed.owner s hs, h.wellFormed.owner t ht] at heq
  have haddress : (⟨d.name, s.name, option⟩ : Address) = ⟨d.name, t.name, option'⟩ :=
    Address.eq_of_path_eq h.name (h.admits.sections s hs) h.name (h.admits.sections t ht) heq
  exact hne (congrArg Address.sectionName haddress)

/-- The path of an option is one of its section. -/
theorem owns_entry (h : d.Legible) {s : Section} (hs : s ∈ d.sections) {e : Entry}
    (he : e ∈ s.entries) : s.Owns e.fullName :=
  (h.wellFormed.sections s hs).owns he

/-- The paths of its options are those of the file. -/
theorem owns (h : d.Legible) {e : Entry} (he : e ∈ d.entries) : d.Owns e.fullName := by
  obtain ⟨s, hs, he⟩ := List.mem_flatMap.1 he
  exact h.owns_of_section hs (h.owns_entry hs he)

/-- What is reported of the section of a name is right in the file. -/
theorem reports_section (h : d.Legible) {name : String} {s : Section} {es : List Event}
    {new entries : List Entry} (hs : d.section? name = some s)
    (hreports : Reports s.Owns es s.entries new)
    (hnew : entries.Perm (new ++ (Roster.erase name d.sections).flatMap fun t => t.entries)) :
    Reports d.Owns es d.entries entries := by
  have hmem := Roster.mem_of_find?_eq_some hs
  have hold : d.entries.Perm
      (s.entries ++ (Roster.erase name d.sections).flatMap fun t => t.entries) :=
    List.Perm.flatMap_right (fun t : Section => t.entries) (Roster.perm_erase hs)
  refine hreports.frame (fun path hpath => h.owns_of_section hmem hpath) hold hnew fun e he => ?_
  obtain ⟨t, ht, he⟩ := List.mem_flatMap.1 he
  have hne : t.name ≠ name :=
    Roster.find?_eq_none.1 (h.wellFormed.sorted.find?_erase_self name) t ht
  have htmem := (Roster.erase_sublist ..).subset ht
  have hpath := h.owns_entry htmem he
  refine ⟨h.owns_of_section htmem hpath, h.not_owns htmem hmem ?_ hpath⟩
  have hname : s.name = name := Roster.name_of_find?_eq_some hs
  rw [hname]
  exact hne

/-- What is reported of all sections, from the first to the last, is right in the file. -/
theorem reports_each (h : d.Legible) {events : Section → List Event}
    {new : Section → List Entry}
    (hreports : ∀ s ∈ d.sections, Reports s.Owns (events s) s.entries (new s)) :
    Reports d.Owns (d.sections.flatMap events) d.entries (d.sections.flatMap new) := by
  have hdisjoint : d.sections.Pairwise fun s t => ∀ path, s.Owns path → ¬t.Owns path :=
    h.wellFormed.sorted.imp_of_mem fun hs ht hlt path hpath =>
      h.not_owns hs ht (Roster.ne_of_lt hlt) hpath
  exact (Reports.flatMap hreports hdisjoint).mono
    fun path ⟨s, hs, hpath⟩ => h.owns_of_section hs hpath

/-- When a file goes, it reports so for all its options. -/
theorem reports_removalEvents (h : d.Legible) : Reports d.Owns d.removalEvents d.entries [] := by
  have hclear : ∀ s ∈ d.sections,
      Reports s.Owns (s.entries.flatMap Entry.removalEvents) s.entries [] := by
    intro s hs
    have hreports := (Body.Evolves.clear s.toBody).reports (h.wellFormed.sections s hs)
    simpa [Body.clear] using hreports
  have hall := h.reports_each hclear
  rw [List.flatMap_eq_nil_iff.2 fun _ _ => rfl] at hall
  exact hall

end Legible

/-- An empty section adds no option. -/
theorem perm_entries_insert (d : Document) {s : Section} (h : s.entries = []) :
    d.entries.Perm { d with sections := Roster.insert s d.sections }.entries := by
  have hperm := List.Perm.flatMap_right (fun t : Section => t.entries)
    (Roster.perm_insert s d.sections)
  rw [List.flatMap_cons, h] at hperm
  exact hperm.symm

/-- Whatever becomes of a file, a listener is right about its options. -/
theorem EvolvesIn.reports {palette : Palette} {d d' : Document} {es : List Event}
    (h : d.EvolvesIn Undotted palette es d') (hd : d.Legible) :
    Reports d.Owns es d.entries d'.entries := by
  -- Most changes leave all options where they are, and tell of none.
  have unchanged {d d' : Document} (hd : d.Legible) (hentries : d.entries.Perm d'.entries) :
      Reports d.Owns [] d.entries d'.entries :=
    .silent silent_nil hentries fun e he => hd.owns he
  induction h with
  | silent d h => exact .silent h (.refl _) fun e he => hd.owns he
  | inSection d hs h =>
    exact hd.reports_section hs
      (h.2.reports (hd.wellFormed.sections _ (Roster.mem_of_find?_eq_some hs)))
      (List.Perm.flatMap_right (fun t : Section => t.entries) (Roster.perm_replace hs _))
  | eachSection d f h =>
    have hreports := hd.reports_each fun s hs => (h s).2.reports (hd.wellFormed.sections s hs)
    show Reports _ _ _ ((Traced.each f d.sections).result.flatMap fun s => s.entries)
    rw [Traced.result_each, List.flatMap_map, Traced.events_each]
    exact hreports
  | addSection d s hname =>
    unfold Document.addSection
    split
    · exact unchanged hd (.refl _)
    · split
      · exact unchanged hd (.refl _)
      · next t ht =>
        obtain rfl := Section.eq_of_ofDefinition? ht
        exact unchanged hd (d.perm_entries_insert rfl)
  | removeSection d name =>
    unfold Document.removeSection
    split
    · exact unchanged hd (.refl _)
    · next s hs =>
      have hreports := (Body.Evolves.clear s.toBody).reports
        (hd.wellFormed.sections s (Roster.mem_of_find?_eq_some hs))
      simp only [Traced.events_bind, Traced.result_bind, Traced.events_pure, Traced.result_pure,
        List.append_nil]
      exact hd.reports_section hs hreports (.refl _)
  | setVersion d version =>
    unfold Document.setVersion
    split <;> exact unchanged hd (.refl _)
  | note | setReloading => exact unchanged hd (.refl _)
  | trans h _ ih ih' =>
    -- Both parts are about the same paths, since a file keeps its name.
    have howns := ih' (h.legible hd)
    unfold Owns at howns
    rw [h.name_eq] at howns
    exact (ih hd).trans howns

end Document

/-! ## Registries -/

namespace Registry

/-- A well-formed registry whose paths lead back to its options. -/
structure Legible (r : Registry) : Prop where
  wellFormed : r.WellFormed
  admits : r.Admits Undotted

/-- A registry stays legible, where no file and no section gets a name with a dot. -/
theorem EvolvesIn.legible {renames : Prop} {r s : Registry} {es : List Event}
    (h : r.EvolvesIn Undotted renames es s) (hr : r.Legible) : s.Legible where
  wellFormed := h.wellFormed hr.wellFormed
  admits := h.admits hr.admits

namespace Legible

variable {r : Registry}

/-- The files of a legible registry are legible. -/
theorem document (h : r.Legible) {d : Document} (hd : d ∈ r.documents) : d.Legible where
  wellFormed := h.wellFormed.documents d hd
  name := (h.admits d hd).1
  admits := (h.admits d hd).2

/-- No name of a file or section in it holds a dot. -/
theorem dotless (h : r.Legible) : r.Dotless :=
  fun d hd => ⟨(h.admits d hd).1, (h.admits d hd).2.sections⟩

/-- Files of different names have different paths. -/
theorem not_owns (h : r.Legible) {c d : Document} (hc : c ∈ r.documents) (hd : d ∈ r.documents)
    (hne : c.name ≠ d.name) {path : String} (hpath : c.Owns path) : ¬d.Owns path := by
  rintro ⟨sectionName', option', hsection', hpath'⟩
  obtain ⟨sectionName, option, hsection, hpath⟩ := hpath
  have haddress : (⟨c.name, sectionName, option⟩ : Address) = ⟨d.name, sectionName', option'⟩ :=
    Address.eq_of_path_eq (h.document hc).name hsection (h.document hd).name hsection'
      (hpath.symm.trans hpath')
  exact hne (congrArg Address.file haddress)

/-- What is reported of the file of a name is right in the registry. -/
theorem reports_document (h : r.Legible) {name : String} {d : Document} {es : List Event}
    {new entries : List Entry} (hd : r.document? name = some d)
    (hreports : Reports d.Owns es d.entries new)
    (hnew : entries.Perm (new ++ (Roster.erase name r.documents).flatMap Document.entries)) :
    Reports (fun _ => True) es r.entries entries := by
  have hmem := Roster.mem_of_find?_eq_some hd
  have hold : r.entries.Perm
      (d.entries ++ (Roster.erase name r.documents).flatMap Document.entries) :=
    List.Perm.flatMap_right Document.entries (Roster.perm_erase hd)
  refine hreports.frame (fun _ _ => trivial) hold hnew fun e he => ⟨trivial, ?_⟩
  obtain ⟨c, hc, he⟩ := List.mem_flatMap.1 he
  have hne : c.name ≠ name :=
    Roster.find?_eq_none.1 (h.wellFormed.sorted.find?_erase_self name) c hc
  have hcmem := (Roster.erase_sublist ..).subset hc
  have hname : d.name = name := Roster.name_of_find?_eq_some hd
  exact h.not_owns hcmem hmem (hname ▸ hne) ((h.document hcmem).owns he)

/-- When all files go, they report so for all options. -/
theorem reports_clear (h : r.Legible) :
    Reports (fun _ => True) (r.documents.flatMap Document.removalEvents) r.entries [] := by
  have hdisjoint : r.documents.Pairwise fun c d => ∀ path, c.Owns path → ¬d.Owns path :=
    h.wellFormed.sorted.imp_of_mem fun hc hd hlt path hpath =>
      h.not_owns hc hd (Roster.ne_of_lt hlt) hpath
  have hall := Reports.flatMap
    (fun d hd => (h.document hd).reports_removalEvents) hdisjoint
  rw [List.flatMap_eq_nil_iff.2 fun _ _ => rfl] at hall
  exact hall.mono fun _ _ => trivial

end Legible

/-- An empty file adds no option. -/
theorem perm_entries_insert (r : Registry) {d : Document} (h : d.sections = []) :
    r.entries.Perm { r with documents := Roster.insert d r.documents }.entries := by
  have hempty : d.entries = [] := by
    unfold Document.entries
    rw [h]
    rfl
  have hperm := List.Perm.flatMap_right Document.entries (Roster.perm_insert d r.documents)
  rw [List.flatMap_cons, hempty] at hperm
  exact hperm.symm

/-- Whatever becomes of a registry whose options keep their names, a listener is right about it. -/
theorem EvolvesIn.reports {r s : Registry} {es : List Event}
    (h : r.EvolvesIn Undotted False es s) (hr : r.Legible) :
    Reports (fun _ => True) es r.entries s.entries := by
  have unchanged {es : List Event} (hes : Silent es) {r s : Registry}
      (hentries : r.entries.Perm s.entries) : Reports (fun _ => True) es r.entries s.entries :=
    .silent hes hentries fun _ _ => trivial
  induction h with
  | silent r h => exact unchanged h (.refl _)
  | inDocument r hd h =>
    exact hr.reports_document hd (h.reports (hr.document (Roster.mem_of_find?_eq_some hd)))
      (List.Perm.flatMap_right Document.entries (Roster.perm_replace hd _))
  | addFile r name =>
    unfold Registry.addFile
    dsimp only
    split
    · exact unchanged silent_nil (.refl _)
    · split
      · exact unchanged silent_nil (.refl _)
      · next d hd =>
        obtain rfl := Document.eq_of_ofName? hd
        exact unchanged silent_nil (r.perm_entries_insert rfl)
  | removeFile r name =>
    unfold Registry.removeFile
    split
    · exact unchanged silent_nil (.refl _)
    · next d hd =>
      have hreports := (hr.document (Roster.mem_of_find?_eq_some hd)).reports_removalEvents
      simp only [Document.clear, Traced.events_bind, Traced.events_tell, Traced.events_pure,
        List.append_nil]
      -- The record that the file is gone publishes nothing.
      exact (hr.reports_document hd hreports (.refl _)).trans
        (.silent (silent_singleton rfl) (.refl _) fun _ _ => trivial)
  | clear r => exact hr.reports_clear.trans (.silent silent_nil (.refl _) fun _ _ => trivial)
  | setSettings r settings =>
    unfold Registry.setSettings
    split <;> exact unchanged silent_nil (.refl _)
  | rename _ _ _ h => exact h.elim
  | trans h _ ih ih' => exact (ih hr).trans (ih' (h.legible hr))

end Registry

end TypedConfig
