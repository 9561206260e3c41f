import TypedConfig.Proofs.WellFormed
import TypedConfig.Registry.Parents

/-!
# The kept places of parents

A place that is kept for a parent is only a hint. It may lead to any option after others have come
and gone, but it is used only where the option that stands there has the full name that is asked
for; and as long as no name of a file or section holds a dot, a full name leads to one option
(`Registry.WellFormed.entry?_eq_of_entryIn?`). So the parent of an option is what a look at its path
finds, whatever is kept, and the inherited values are those that would be found if nothing were kept
(`Registry.parentOf_and_inherited_of_forget_eq`).
-/

namespace TypedConfig

/-- The option without the place of its parent. -/
def Entry.forget (e : Entry) : Entry :=
  { e with knownParent := none }

namespace Registry

/-- All options. -/
def entries (r : Registry) : List Entry :=
  r.documents.flatMap fun d => d.sections.flatMap fun s => s.entries

/-- The registry with no parent's place kept. -/
def forget (r : Registry) : Registry :=
  r.mapEntries Entry.forget

/-- No name of a file or of a section holds a dot. -/
def Dotless (r : Registry) : Prop :=
  ∀ d ∈ r.documents, '.' ∉ d.name.toList ∧ ∀ s ∈ d.sections, '.' ∉ s.name.toList

variable {r : Registry}

/-- The options of a registry are those of the sections of its files. -/
theorem mem_entries_iff {e : Entry} :
    e ∈ r.entries ↔ ∃ d ∈ r.documents, ∃ s ∈ d.sections, e ∈ s.entries := by
  simp only [entries, List.mem_flatMap]

/-! ## Addresses -/

/-- In a well-formed registry an option is found at its address. -/
theorem WellFormed.entryAt?_address (h : r.WellFormed) {e : Entry} (he : e ∈ r.entries) :
    r.entryAt? e.address = some e := by
  obtain ⟨d, hd, s, hs, he⟩ := mem_entries_iff.1 he
  have hdwell := h.documents d hd
  have hbody := hdwell.sections s hs
  have hentry := hbody.entries e he
  have hsection : e.sectionName = s.name := hentry.sectionName_eq
  have hfile : e.file = d.name := hentry.file_eq.trans (hdwell.owner s hs)
  refine entryAt?_eq_some_iff.2 ⟨d, s, ?_, ?_, ?_⟩
  · exact h.sorted.find?_eq_some_iff.2 ⟨hd, hfile.symm⟩
  · exact hdwell.sorted.find?_eq_some_iff.2 ⟨hs, hsection.symm⟩
  · exact hbody.sorted.find?_eq_some_iff.2 ⟨he, rfl⟩

/-- What is found at an address is an option of the registry, and the address is its own. -/
theorem WellFormed.mem_of_entryAt? (h : r.WellFormed) {a : Address} {e : Entry}
    (he : r.entryAt? a = some e) : e ∈ r.entries ∧ e.address = a := by
  obtain ⟨d, s, hd, hs, he⟩ := entryAt?_eq_some_iff.1 he
  have hdmem := Roster.mem_of_find?_eq_some hd
  have hsmem := Roster.mem_of_find?_eq_some hs
  have hemem := Roster.mem_of_find?_eq_some he
  have hdwell := h.documents d hdmem
  have hentry := (hdwell.sections s hsmem).entries e hemem
  have hfile : e.file = a.file :=
    (hentry.file_eq.trans (hdwell.owner s hsmem)).trans (Roster.name_of_find?_eq_some hd)
  have hsection : e.sectionName = a.sectionName :=
    hentry.sectionName_eq.trans (Roster.name_of_find?_eq_some hs)
  have hname : e.name = a.option := Roster.name_of_find?_eq_some he
  refine ⟨mem_entries_iff.2 ⟨d, hdmem, s, hsmem, hemem⟩, ?_⟩
  show (⟨e.file, e.sectionName, e.name⟩ : Address) = a
  rw [hfile, hsection, hname]

/-- Where no dot is in the way, an option is found by its full name. -/
theorem WellFormed.entry?_fullName (h : r.WellFormed) (hdots : r.Dotless) {e : Entry}
    (he : e ∈ r.entries) : r.entry? e.fullName = some e := by
  obtain ⟨d, hd, s, hs, hmem⟩ := mem_entries_iff.1 he
  have hdwell := h.documents d hd
  have hentry := (hdwell.sections s hs).entries e hmem
  have hfile : '.' ∉ e.file.toList := by
    rw [hentry.file_eq, hdwell.owner s hs]
    exact (hdots d hd).1
  have hsection : '.' ∉ e.sectionName.toList := by
    rw [hentry.sectionName_eq]
    exact (hdots d hd).2 s hs
  have hpath : Address.ofPath? e.fullName = some e.address := Address.ofPath?_path hfile hsection
  have hat := h.entryAt?_address he
  unfold Registry.entry?
  rw [hpath]
  exact hat

/-! ## Places -/

/-- What stands at a place is an option of the registry. -/
theorem mem_entries_of_entryIn? {l : Location} {e : Entry} (h : r.entryIn? l = some e) :
    e ∈ r.entries := by
  simp only [entryIn?, Option.bind_eq_bind, Option.bind_eq_some_iff] at h
  obtain ⟨d, hd, s, hs, he⟩ := h
  exact mem_entries_iff.2 ⟨d, List.mem_of_getElem? hd, s, List.mem_of_getElem? hs,
    List.mem_of_getElem? he⟩

/-- The place of an address leads to what is found there. -/
theorem bind_locate? (r : Registry) (a : Address) :
    (r.locate? a).bind r.entryIn? = r.entryAt? a := by
  simp only [locate?, entryAt?, section?, document?, Option.bind_eq_bind]
  rw [← Roster.bind_position? a.file r.documents]
  cases Roster.position? a.file r.documents with
  | none => rfl
  | some i =>
    cases hd : r.documents[i]? with
    | none => simp [hd]
    | some d =>
      have hsection := Roster.bind_position? a.sectionName d.sections
      simp only [Option.bind_some, hd, Document.section?]
      rw [← hsection]
      cases Roster.position? a.sectionName d.sections with
      | none => rfl
      | some j =>
        cases hs : d.sections[j]? with
        | none => simp [hs]
        | some s =>
          have hoption := Roster.bind_position? a.option s.entries
          simp only [Option.bind_some, hs, Body.entry?]
          rw [← hoption]
          cases Roster.position? a.option s.entries with
          | none => rfl
          | some k => simp [entryIn?, hd, hs]

/-- A place whose option has the full name that is asked for holds what a look at the name finds. -/
theorem WellFormed.entry?_eq_of_entryIn? (h : r.WellFormed) (hdots : r.Dotless) {l : Location}
    {e : Entry} (he : r.entryIn? l = some e) : r.entry? e.fullName = some e :=
  h.entry?_fullName hdots (mem_entries_of_entryIn? he)

/-- The parent of an option is what a look at its path finds, whatever place is kept. -/
theorem WellFormed.parentOf_result (h : r.WellFormed) (hdots : r.Dotless) {e : Entry}
    (he : e ∈ r.entries) : (r.parentOf e.address).result.2 = r.parentByPath? e := by
  unfold parentOf parentByPath?
  rw [h.entryAt?_address he]
  dsimp only
  cases hparent : e.parent with
  | none => rfl
  | some path =>
    dsimp only
    split
    · next p hp =>
      -- The kept place is used, so what stands there has the path as its full name.
      simp only [knownParent?, hparent, Option.bind_eq_bind, Option.bind_some,
        Option.bind_eq_some_iff, Option.filter_eq_some_iff, decide_eq_true_eq] at hp
      obtain ⟨location, _, hin, rfl⟩ := hp
      exact (h.entry?_eq_of_entryIn? hdots hin).symm
    · simp only [Traced.result_bind, Traced.result_pure, Option.bind_eq_bind, Option.bind_some,
        entry?, Option.bind_assoc, bind_locate?]

/-- The option that owns an inherited value does not depend on how the parent was found, nor does
the value. -/
theorem WellFormed.inherited_result (h : r.WellFormed) (hdots : r.Dotless) {e : Entry}
    (he : e ∈ r.entries) {α : Type} (f : Entry → Option Value → α) :
    (r.inherited e.address f).result.2 =
      some (f (source e (r.parentByPath? e)).1 (source e (r.parentByPath? e)).2) := by
  unfold inherited
  rw [h.entryAt?_address he]
  dsimp only
  split
  · next hvalue =>
    obtain ⟨v, hv⟩ := Option.isSome_iff_exists.1 hvalue
    simp only [source, hv, Traced.result_pure]
  · simp only [Traced.result_bind, Traced.result_pure, h.parentOf_result hdots he]

/-! ## Nothing kept -/

/-- What is found after a change of all options is the change of what was found. -/
theorem entryAt?_mapEntries {f : Entry → Entry} (hf : ∀ e, (f e).name = e.name) (r : Registry)
    (a : Address) : (r.mapEntries f).entryAt? a = (r.entryAt? a).map f := by
  let inSection (s : Section) : Section := { s with entries := s.entries.map f }
  let inDocument (d : Document) : Document := { d with sections := d.sections.map inSection }
  have hdocument : Roster.find? a.file (r.documents.map inDocument) =
      (Roster.find? a.file r.documents).map inDocument :=
    Roster.find?_map (f := inDocument) (fun _ => rfl) _ _
  have hsection (d : Document) : Roster.find? a.sectionName (d.sections.map inSection) =
      (Roster.find? a.sectionName d.sections).map inSection :=
    Roster.find?_map (f := inSection) (fun _ => rfl) _ _
  have hentry (s : Section) : Roster.find? a.option (s.entries.map f) =
      (Roster.find? a.option s.entries).map f := Roster.find?_map hf _ _
  show ((Roster.find? a.file (r.documents.map inDocument)).bind
    fun d => Roster.find? a.sectionName d.sections).bind
      (fun s => Roster.find? a.option s.entries) =
      (((Roster.find? a.file r.documents).bind fun d => Roster.find? a.sectionName d.sections).bind
        fun s => Roster.find? a.option s.entries).map f
  rw [hdocument]
  cases Roster.find? a.file r.documents with
  | none => rfl
  | some d =>
    simp only [Option.map_some, Option.bind_some, inDocument, hsection]
    cases Roster.find? a.sectionName d.sections with
    | none => rfl
    | some s => exact hentry s

/-- An option is there without its parent's place when all of these are forgotten. -/
theorem mem_entries_forget {e : Entry} (he : e ∈ r.entries) : e.forget ∈ r.forget.entries := by
  obtain ⟨d, hd, s, hs, he⟩ := mem_entries_iff.1 he
  exact mem_entries_iff.2 ⟨_, List.mem_map_of_mem hd, _, List.mem_map_of_mem hs,
    List.mem_map_of_mem he⟩

/-- A registry is well-formed if it is after all options were changed, where no option is
well-formed only because of its change. -/
theorem WellFormed.of_mapEntries {f : Entry → Entry} (h : (r.mapEntries f).WellFormed)
    (hname : ∀ e, (f e).name = e.name)
    (hf : ∀ file sectionName e, (f e).WellFormed file sectionName →
      e.WellFormed file sectionName) : r.WellFormed where
  sorted := h.sorted.of_names_eq (Roster.names_map (fun _ => by rfl) _).symm
  documents d hd := by
    have hd' := h.documents _ (List.mem_map_of_mem hd)
    have hsection {s : Section} (hs : s ∈ d.sections) :=
      hd'.sections { s with entries := s.entries.map f } (List.mem_map.2 ⟨s, hs, rfl⟩)
    refine ⟨?_, fun s hs => ?_, fun s hs => ⟨?_, fun e he => ?_⟩, hd'.version_pos, hd'.version_le⟩
    · exact hd'.sorted.of_names_eq (Roster.names_map (fun _ => by rfl) _).symm
    · exact hd'.owner { s with entries := s.entries.map f } (List.mem_map.2 ⟨s, hs, rfl⟩)
    · exact (hsection hs).sorted.of_names_eq (Roster.names_map hname _).symm
    · exact hf _ _ e ((hsection hs).entries (f e) (List.mem_map_of_mem he))

/-- What makes an option well-formed is not about its kept place. -/
theorem wellFormed_forget_iff {file sectionName : String} {e : Entry} :
    e.forget.WellFormed file sectionName ↔ e.WellFormed file sectionName := by
  constructor
  · intro h
    exact ⟨⟨h.sound.domain, h.sound.value, h.sound.default⟩, h.file_eq, h.sectionName_eq, h.name_ne⟩
  · intro h
    exact ⟨⟨h.sound.domain, h.sound.value, h.sound.default⟩, h.file_eq, h.sectionName_eq, h.name_ne⟩

/-- A registry stays well-formed when the places are forgotten. -/
theorem WellFormed.forget (h : r.WellFormed) : r.forget.WellFormed :=
  h.mapEntries _ (fun _ => rfl) fun _ _ _ => wellFormed_forget_iff.2

/-- A registry that is well-formed without the places is so with them. -/
theorem WellFormed.of_forget (h : r.forget.WellFormed) : r.WellFormed :=
  h.of_mapEntries (fun _ => rfl) fun _ _ _ => wellFormed_forget_iff.1

/-- A change of the options changes no name of a file or section. -/
theorem dotless_mapEntries_iff {f : Entry → Entry} : (r.mapEntries f).Dotless ↔ r.Dotless := by
  simp only [Dotless, mapEntries, List.forall_mem_map]

/-- The places of parents are no names. -/
theorem dotless_forget_iff : r.forget.Dotless ↔ r.Dotless :=
  dotless_mapEntries_iff

/-- Forgetting commutes with a look at a parent's path. -/
theorem parentByPath?_forget (r : Registry) (e : Entry) :
    r.forget.parentByPath? e.forget = (r.parentByPath? e).map Entry.forget := by
  have hentry (path : String) : r.forget.entry? path = (r.entry? path).map Entry.forget := by
    simp only [Option.bind_eq_bind, entry?, Option.map_bind]
    exact Option.bind_congr fun a _ => entryAt?_mapEntries (f := Entry.forget) (fun _ => rfl) r a
  simp only [parentByPath?, Option.bind_eq_bind, Option.map_bind]
  exact Option.bind_congr fun path _ => hentry path

/-- A function that keeps the two values does not change where a value comes from. -/
theorem source_map {g : Entry → Entry} (hvalue : ∀ e, (g e).value = e.value)
    (hdefault : ∀ e, (g e).default = e.default) (e : Entry) (parent : Option Entry) :
    source (g e) (parent.map g) = (g (source e parent).1, (source e parent).2) := by
  unfold source
  rw [hvalue, hdefault]
  cases e.value with
  | some v => rfl
  | none =>
    cases parent with
    | none => rfl
    | some p =>
      show (g p, (g p).value.or (g p).default) = _
      rw [hvalue, hdefault]

/-- Inherited values do not depend on what is kept. -/
theorem WellFormed.inherited_forget (h : r.WellFormed) (hdots : r.Dotless) {e : Entry}
    (he : e ∈ r.entries) {α : Type} {f : Entry → Option Value → α}
    (hf : ∀ e v, f e.forget v = f e v) :
    (r.inherited e.address f).result.2 = (r.forget.inherited e.address f).result.2 := by
  have hforget := h.forget.inherited_result (dotless_forget_iff.2 hdots)
    (mem_entries_forget he) f
  rw [parentByPath?_forget, source_map (g := Entry.forget) (fun _ => rfl) (fun _ => rfl), hf]
    at hforget
  exact (h.inherited_result hdots he f).trans hforget.symm

/-- What is kept of parents never shows. In a registry that a run of operations has led to and in
which no file or section name holds a dot, whatever places are kept in place of those that the run
has kept, each option's parent is what a look at the parent's path finds, and each of the six ways
to read an inherited value gives what it gives when nothing is kept. -/
theorem parentOf_and_inherited_of_forget_eq {r r' : Registry} (hr : r.Reachable) (hdots : r.Dotless)
    (hkept : r'.forget = r.forget) {e : Entry} (he : e ∈ r'.entries) :
    r'.entryAt? e.address = some e ∧
      (r'.parentOf e.address).result.2 = r'.parentByPath? e ∧
      (r'.inheritedValue e.address).result.2 = (r'.forget.inheritedValue e.address).result.2 ∧
      (r'.inheritedBoolean e.address).result.2 =
        (r'.forget.inheritedBoolean e.address).result.2 ∧
      (r'.inheritedInteger e.address).result.2 =
        (r'.forget.inheritedInteger e.address).result.2 ∧
      (r'.inheritedString e.address).result.2 = (r'.forget.inheritedString e.address).result.2 ∧
      (r'.inheritedColor e.address).result.2 = (r'.forget.inheritedColor e.address).result.2 ∧
      (r'.inheritedEnum e.address).result.2 = (r'.forget.inheritedEnum e.address).result.2 := by
  have hwell : r'.WellFormed := .of_forget (hkept ▸ hr.wellFormed.forget)
  have hdots' : r'.Dotless := dotless_forget_iff.1 (hkept ▸ dotless_forget_iff.2 hdots)
  have hreads {α : Type} {f : Entry → Option Value → α} (hf : ∀ e v, f e.forget v = f e v) :
      (r'.inherited e.address f).result.2 = (r'.forget.inherited e.address f).result.2 :=
    hwell.inherited_forget hdots' he hf
  refine ⟨hwell.entryAt?_address he, hwell.parentOf_result hdots' he, ?_, ?_, ?_, ?_, ?_, ?_⟩
  · exact hreads fun _ _ => rfl
  · exact hreads fun _ _ => rfl
  · exact hreads fun _ _ => rfl
  · exact hreads fun _ _ => rfl
  · exact hreads fun _ _ => rfl
  · exact hreads fun _ _ => rfl

/-- A run that looks up the parent of `child`, which is kept as standing first, and then puts
another option before it. -/
def displacing : List Operation :=
  [.addFile "app", .addSection "app" { name := "look" },
    .edit "app" "look"
      (.define { name := "base", kind := .integer, hi := 9, default := some "3" } fun _ =>
        .define { name := "child << app.look.base", kind := .integer, hi := 9, nullable := true }
          fun _ => .finish (.ok ())),
    .inherited ⟨"app", "look", "child"⟩,
    .edit "app" "look"
      (.define { name := "attic", kind := .boolean, default := some "on" } fun _ =>
        .finish (.ok ()))]

/-- What `displacing` leads to. -/
def displaced : Registry :=
  (run displacing { env := { dir := "/etc" } } {}).result.1

/-- A run leads there. -/
theorem reachable_displaced : displaced.Reachable := by
  unfold displaced
  exact ⟨{ dir := "/etc" }, displacing, {}, rfl⟩

/-- The kept place leads to `attic` now, and the parent is found all the same. -/
theorem parentOf_and_inherited_displaced :
    (displaced.entryIn? ⟨0, 0, 0⟩).map (fun e => e.name) = some "attic" ∧
      ∃ e ∈ displaced.entries, e.name = "child" ∧ e.knownParent = some ⟨0, 0, 0⟩ ∧
        (displaced.parentOf e.address).result.2 = displaced.parentByPath? e ∧
        (displaced.inheritedInteger e.address).result.2 =
          (displaced.forget.inheritedInteger e.address).result.2 := by
  have hplace : (displaced.entryIn? ⟨0, 0, 0⟩).map (fun e => e.name) = some "attic" := by
    decide +kernel
  have hdots : displaced.Dotless := by
    unfold Dotless
    decide +kernel
  have hchild : ∃ e ∈ displaced.entries, e.name = "child" ∧ e.knownParent = some ⟨0, 0, 0⟩ := by
    decide +kernel
  obtain ⟨e, he, hname, hkept⟩ := hchild
  obtain ⟨_, hparent, _, _, hinteger, _⟩ :=
    parentOf_and_inherited_of_forget_eq reachable_displaced hdots rfl he
  exact ⟨hplace, e, he, hname, hkept, hparent, hinteger⟩

end Registry

end TypedConfig
