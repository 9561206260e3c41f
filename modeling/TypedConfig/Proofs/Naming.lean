import TypedConfig.Proofs.Parents

/-!
# Where names come from

The three constructors refuse a name without a character that is not blank (`Visible`), and no
operation changes the name of a file or a section. Options can be renamed, and a rename refuses no
name but the empty one. So a rename is the only way to an option whose name is not visible: after
any run, all names are visible but those that the run itself has given by a rename
(`Registry.visible_names_of_run`). It is a way indeed (`Registry.blanked`).

The names that may have been given are a parameter of the invariant (`Registry.NamedBy`), which each
primitive change keeps, a rename as long as it gives one of them.
-/

namespace TypedConfig

/-- The name holds a character that is not blank, as the constructors ask. -/
def Visible (name : String) : Prop :=
  ∃ c ∈ name.toList, Text.isBlank c = false

/-- The visible names are those that the check of the constructors looks for. -/
theorem visible_iff {name : String} : Visible name ↔ Text.isBlankText name = false := by
  unfold Visible Text.isBlankText
  rw [List.all_eq_false]
  simp only [Bool.not_eq_true]

/-- What passes the check of the constructors is visible, and nothing else does. -/
theorem notEmpty_eq_none_iff {name field : String} :
    Check.notEmpty name field = none ↔ Visible name := by
  rw [visible_iff]
  unfold Check.notEmpty
  split
  · next hblank => simp [hblank]
  · next hblank => simp [hblank]

/-- The options have visible names, or names that may have been given. -/
def Body.NamedBy (given : String → Prop) (b : Body) : Prop :=
  ∀ e ∈ b.entries, Visible e.name ∨ given e.name

/-- The file and its sections have visible names, and so have the options, or given ones. -/
structure Document.NamedBy (given : String → Prop) (d : Document) : Prop where
  name : Visible d.name
  sections : ∀ s ∈ d.sections, Visible s.name ∧ s.toBody.NamedBy given

/-- The files and sections have visible names, and so have the options, or given ones. -/
def Registry.NamedBy (given : String → Prop) (r : Registry) : Prop :=
  ∀ d ∈ r.documents, d.NamedBy given

variable {given : String → Prop}

/-! ## The constructors -/

/-- A list of one check on a name is met by the visible names. -/
theorem verify_notEmpty_iff (name field : String) :
    Check.verify [Check.notEmpty name field] = .ok () ↔ Visible name := by
  rw [Check.verify_eq_ok_iff, List.forall_mem_singleton, notEmpty_eq_none_iff]

/-- A definition makes a section if its name is visible. -/
theorem Section.exists_ofDefinition?_iff {file : String} {palette : Palette}
    {d : SectionDefinition} : (∃ s, ofDefinition? file palette d = .ok s) ↔ Visible d.name := by
  rw [← verify_notEmpty_iff d.name (file ++ ".<section>")]
  simp only [ofDefinition?, bind, Except.bind]
  split
  · next hrefused => simp [hrefused]
  · next hverify => simp [hverify, pure, Except.pure]

/-- A name makes a file if what is left without its priority is visible. -/
theorem Document.exists_ofName?_iff {name : String} :
    (∃ d, ofName? name = .ok d) ↔ Visible (splitPriority name).2 := by
  rw [← verify_notEmpty_iff (splitPriority name).2 "file.name"]
  simp only [ofName?, bind, Except.bind]
  split
  · next hrefused => simp [hrefused]
  · next hverify => simp [hverify, pure, Except.pure]

/-- A new section has a visible name. -/
theorem Section.visible_of_ofDefinition? {file : String} {palette : Palette}
    {d : SectionDefinition} {s : Section} (h : Section.ofDefinition? file palette d = .ok s) :
    Visible s.name := by
  rw [eq_of_ofDefinition? h]
  exact exists_ofDefinition?_iff.1 ⟨s, h⟩

/-- A new file has a visible name. -/
theorem Document.visible_of_ofName? {name : String} {d : Document} (h : ofName? name = .ok d) :
    Visible d.name := by
  rw [eq_of_ofName? h]
  exact exists_ofName?_iff.1 ⟨d, h⟩

/-! ## Primitive changes -/

/-- An option keeps its name, and new ones have visible names. -/
theorem Body.Evolves.namedBy {b b' : Body} {es : List Event} (h : b.Evolves es b')
    (hb : b.NamedBy given) : b'.NamedBy given := by
  -- Names come in with definitions alone, where a blank one is refused.
  induction h with
  | silent => exact hb
  | define b d =>
    unfold Body.define
    split
    · exact hb
    · split
      · exact hb
      · next e he =>
        obtain ⟨-, -, -, -, hblank⟩ := Entry.sound_of_ofDefinition? he
        intro f hf
        rcases Roster.mem_insert.1 hf with rfl | hf
        · exact .inl (visible_iff.2 hblank)
        · exact hb f hf
  | remove b name =>
    unfold Body.remove
    split
    · exact hb
    · exact fun e he => hb e ((Roster.erase_sublist name b.entries).subset he)
  | clear => exact fun e he => absurd he List.not_mem_nil
  | change b he h =>
    intro f hf
    rcases Roster.mem_of_mem_replace hf with rfl | hf
    · rw [h.name_eq]
      exact hb _ (Roster.mem_of_find?_eq_some he)
    · exact hb f hf
  | each b f h =>
    rw [Traced.result_each]
    intro e he
    obtain ⟨e, hmem, rfl⟩ := List.mem_map.1 he
    rw [(h e).name_eq]
    exact hb e hmem
  | trans _ _ ih ih' => exact ih' (ih hb)

/-- A file keeps its name, and new sections have visible names. -/
theorem Document.EvolvesIn.namedBy {names : String → Prop} {palette : Palette} {d d' : Document}
    {es : List Event} (h : d.EvolvesIn names palette es d') (hd : d.NamedBy given) :
    d'.NamedBy given := by
  induction h with
  | silent => exact hd
  | inSection d hs h =>
    refine ⟨hd.name, fun t ht => ?_⟩
    rcases Roster.mem_of_mem_replace ht with rfl | ht
    · obtain ⟨hname, hbody⟩ := hd.sections _ (Roster.mem_of_find?_eq_some hs)
      exact ⟨h.names_eq.2 ▸ hname, h.2.namedBy hbody⟩
    · exact hd.sections t ht
  | eachSection d f h =>
    rw [Traced.result_each]
    refine ⟨hd.name, fun t ht => ?_⟩
    obtain ⟨s, hs, rfl⟩ := List.mem_map.1 ht
    obtain ⟨hname, hbody⟩ := hd.sections s hs
    exact ⟨(h s).names_eq.2 ▸ hname, (h s).2.namedBy hbody⟩
  | addSection d s =>
    unfold Document.addSection
    split
    · exact hd
    · split
      · exact hd
      · next s hs =>
        refine ⟨hd.name, fun t ht => ?_⟩
        rcases Roster.mem_insert.1 ht with rfl | ht
        · refine ⟨Section.visible_of_ofDefinition? hs, ?_⟩
          rw [Section.eq_of_ofDefinition? hs]
          exact fun e he => absurd he List.not_mem_nil
        · exact hd.sections t ht
  | removeSection d name =>
    unfold Document.removeSection
    split
    · exact hd
    · exact ⟨hd.name, fun s hs => hd.sections s ((Roster.erase_sublist name d.sections).subset hs)⟩
  | setVersion d version =>
    unfold Document.setVersion
    split <;> exact ⟨hd.name, hd.sections⟩
  | note | setReloading => exact ⟨hd.name, hd.sections⟩
  | trans _ _ ih ih' => exact ih' (ih hd)

namespace Registry

variable {r r' : Registry}

/-- A section of a file gets other options. -/
theorem NamedBy.putEntries (h : r.NamedBy given) {d : Document} {s : Section} {entries : List Entry}
    (hd : d ∈ r.documents) (hs : s ∈ d.sections)
    (hentries : ∀ e ∈ entries, Visible e.name ∨ given e.name) :
    (r.putEntries d s entries).NamedBy given := by
  intro c hc
  rcases Roster.mem_of_mem_replace hc with rfl | hc
  · refine ⟨(h d hd).name, fun t ht => ?_⟩
    rcases Roster.mem_of_mem_replace ht with rfl | ht
    · exact ⟨((h d hd).sections s hs).1, hentries⟩
    · exact (h d hd).sections t ht
  · exact h c hc

/-- All options are changed, each under its name. -/
theorem NamedBy.mapEntries (h : r.NamedBy given) {f : Entry → Entry}
    (hf : ∀ e, (f e).name = e.name) : (r.mapEntries f).NamedBy given := by
  intro c hc
  obtain ⟨d, hd, rfl⟩ := List.mem_map.1 hc
  refine ⟨(h d hd).name, fun t ht => ?_⟩
  obtain ⟨s, hs, rfl⟩ := List.mem_map.1 ht
  obtain ⟨hname, hbody⟩ := (h d hd).sections s hs
  refine ⟨hname, fun e he => ?_⟩
  obtain ⟨e, hmem, rfl⟩ := List.mem_map.1 he
  rw [hf]
  exact hbody e hmem

/-- A rename changes no name but one, to one that may be given. -/
theorem NamedBy.renameOption (h : r.NamedBy given) (path : String) {newName : String}
    (hnew : given newName) : (r.renameOption path newName).result.1.NamedBy given := by
  rcases r.renameOption_cases path newName with hsame | ⟨a, d, s, e, _, hd, hs, _, _, _, hresult⟩
  · rwa [hsame]
  · rw [hresult]
    have hdmem := Roster.mem_of_find?_eq_some hd
    have hsmem := Roster.mem_of_find?_eq_some hs
    refine (h.putEntries hdmem hsmem fun f hf => ?_).mapEntries fun f => ?_
    · rcases Roster.mem_insert.1 hf with rfl | hf
      · exact .inr hnew
      · exact ((h d hdmem).sections s hsmem).2 f ((Roster.erase_sublist _ _).subset hf)
    · unfold redirect
      split <;> rfl

/-- Where nothing is renamed all names stay as they are, and new ones are visible. -/
theorem EvolvesIn.namedBy {names : String → Prop} {es : List Event}
    (h : r.EvolvesIn names False es r') (hr : r.NamedBy given) : r'.NamedBy given := by
  induction h with
  | silent => exact hr
  | inDocument r hd h =>
    intro c hc
    rcases Roster.mem_of_mem_replace hc with rfl | hc
    · exact h.namedBy (hr _ (Roster.mem_of_find?_eq_some hd))
    · exact hr c hc
  | addFile r name =>
    unfold Registry.addFile
    dsimp only
    split
    · exact hr
    · split
      · exact hr
      · next d hd =>
        intro c hc
        rcases Roster.mem_insert.1 hc with rfl | hc
        · refine ⟨Document.visible_of_ofName? hd, ?_⟩
          rw [Document.eq_of_ofName? hd]
          exact fun s hs => absurd hs List.not_mem_nil
        · exact hr c hc
  | removeFile r name =>
    unfold Registry.removeFile
    split
    · exact hr
    · exact fun d hd => hr d ((Roster.erase_sublist name r.documents).subset hd)
  | clear => exact fun d hd => absurd hd List.not_mem_nil
  | setSettings r settings =>
    unfold Registry.setSettings
    split <;> exact hr
  | rename r path newName hno => exact hno.elim
  | trans _ _ ih ih' => exact ih' (ih hr)

/-! ## Runs -/

/-- An operation keeps all names, gives visible ones, or renames an option. -/
theorem NamedBy.perform (h : r.NamedBy given) {op : Operation} (disk : Disk)
    (hop : ∀ path newName, op = .renameOption path newName → given newName) :
    (op.perform r disk).result.1.NamedBy given := by
  have kept (hwithin : op.Within (fun _ => True) False) :
      (op.perform r disk).result.1.NamedBy given :=
    (EvolvesIn.perform hwithin r.admits_true disk).namedBy h
  cases op with
  | renameOption path newName => exact h.renameOption path (hop path newName rfl)
  | setReloading file program => exact kept program.addsOnly_true
  | _ => exact kept trivial

/-- After a run, names are visible or given by one of its renames. -/
theorem NamedBy.run {ops : List Operation} (h : r.NamedBy given) (disk : Disk)
    (hops : ∀ path newName, .renameOption path newName ∈ ops → given newName) :
    (Registry.run ops r disk).result.1.NamedBy given := by
  induction ops generalizing r disk with
  | nil => exact h
  | cons op ops ih =>
    refine ih (h.perform disk fun path newName heq => ?_) _ fun path newName hmem => ?_
    · exact hops path newName (List.mem_cons.2 (.inl heq.symm))
    · exact hops path newName (List.mem_cons_of_mem _ hmem)

/-- After every run from a registry without files, whatever it asks for, all files and sections have
visible names. An option's name is never empty, and it is visible unless the run has given that very
name by a rename. -/
theorem visible_names_of_run (env : Environment) (ops : List Operation) (disk : Disk) :
    let r := (run ops { env } disk).result.1
    (∀ d ∈ r.documents, Visible d.name ∧ ∀ s ∈ d.sections, Visible s.name) ∧
      ∀ e ∈ r.entries, e.name ≠ "" ∧
        (Visible e.name ∨ ∃ path, .renameOption path e.name ∈ ops) := by
  intro r
  have hnamed : r.NamedBy fun name => ∃ path, Operation.renameOption path name ∈ ops :=
    NamedBy.run (fun d hd => absurd hd List.not_mem_nil) disk fun path newName hmem => ⟨path, hmem⟩
  have hwell : r.WellFormed := Reachable.wellFormed ⟨env, ops, disk, rfl⟩
  refine ⟨fun d hd => ⟨(hnamed d hd).name, fun s hs => ((hnamed d hd).sections s hs).1⟩, ?_⟩
  intro e he
  obtain ⟨d, hd, s, hs, he⟩ := mem_entries_iff.1 he
  have hentry := ((hwell.documents d hd).sections s hs).entries e he
  exact ⟨hentry.name_ne, ((hnamed d hd).sections s hs).2 e he⟩

/-- A run that gives an option a name that is a space. -/
def blanking : List Operation :=
  [.addFile "app", .addSection "app" { name := "look" },
    .edit "app" "look"
      (.define { name := "depth", kind := .integer, hi := 9, default := some "1" } fun _ =>
        .finish (.ok ())),
    .renameOption "app.look.depth" " "]

/-- What `blanking` leads to. -/
def blanked : Registry :=
  (run blanking { env := { dir := "/etc" } } {}).result.1

/-- The rename took place, and the option's name is not visible any more. No definition could have
given it that name. -/
theorem not_visible_blanked :
    blanked.Reachable ∧ (∃ e ∈ blanked.entries, e.name = " " ∧ ¬Visible e.name) ∧
      Check.notEmpty " " "app.look. " ≠ none := by
  have hreachable : blanked.Reachable := by
    unfold blanked
    exact ⟨{ dir := "/etc" }, blanking, {}, rfl⟩
  obtain ⟨e, he, hname⟩ : ∃ e ∈ blanked.entries, e.name = " " := by decide +kernel
  refine ⟨hreachable, ⟨e, he, hname, ?_⟩, by decide +kernel⟩
  rw [hname, visible_iff]
  decide +kernel

end Registry

end TypedConfig
