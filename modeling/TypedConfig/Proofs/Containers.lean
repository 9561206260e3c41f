import TypedConfig.Proofs.Definitions
import TypedConfig.Proofs.Parents
import TypedConfig.Roster.Exchange
import TypedConfig.Roster.Search

/-!
# Rosters at three levels

The files of a registry, the sections of a file and the options of a section are rosters in the
order of their names' bytes, in which look-ups find what is there and nothing else, and each thing
carries the names of its owners (`Registry.InOrder`). This holds in all registries that a host can
bring about and also while a hook is at work, since each step of a hook is the end of a shorter one.

An operation that adds, removes or renames a thing exchanges this thing and no other, and one that
is refused exchanges nothing (`Body.Exact`, `Document.Exact`, `Registry.Exact`). What is refused is
said there too: to remove or change what is not there, to add what is there already or has no proper
definition, and to rename something to nothing or to a name that is taken.
-/

namespace TypedConfig

/-! ## Order and owners -/

/-- A section in order, with options that carry its names. -/
structure Body.InOrder (file name : String) (b : Body) : Prop where
  file_eq : b.file = file
  name_eq : b.name = name
  roster : Roster.InOrder b.entries
  owners : ∀ e ∈ b.entries, e.file = file ∧ e.sectionName = name

/-- A file in order, with sections that carry its name. -/
structure Document.InOrder (name : String) (d : Document) : Prop where
  name_eq : d.name = name
  roster : Roster.InOrder d.sections
  sections : ∀ s ∈ d.sections, s.toBody.InOrder name s.name

/-- A registry in order. -/
structure Registry.InOrder (r : Registry) : Prop where
  roster : Roster.InOrder r.documents
  documents : ∀ d ∈ r.documents, d.InOrder d.name

/-- A section as runs leave it is in order. -/
theorem Body.WellFormed.inOrder {b : Body} (h : b.WellFormed) : b.InOrder b.file b.name where
  file_eq := rfl
  name_eq := rfl
  roster := h.sorted.inOrder
  owners e he := ⟨(h.entries e he).file_eq, (h.entries e he).sectionName_eq⟩

/-- A file as runs leave it is in order. -/
theorem Document.WellFormed.inOrder {d : Document} (h : d.WellFormed) : d.InOrder d.name where
  name_eq := rfl
  roster := h.sorted.inOrder
  sections s hs := by
    have hbody := (h.sections s hs).inOrder
    rw [h.owner s hs] at hbody
    exact hbody

/-- A registry as runs leave it is in order. -/
theorem Registry.WellFormed.inOrder {r : Registry} (h : r.WellFormed) : r.InOrder where
  roster := h.sorted.inOrder
  documents d hd := (h.documents d hd).inOrder

/-- A section is in order wherever a script has led it. -/
theorem Body.WellFormed.inOrder_script {b : Body} (h : b.WellFormed) {α : Type}
    (script : Script α) : (script.run b).result.1.InOrder b.file b.name := by
  have hevolves := Evolves.script script b
  have hwell := (hevolves.wellFormed h).inOrder
  obtain ⟨entries, hframe⟩ := hevolves.frame
  rw [hframe] at hwell ⊢
  exact hwell

/-- A file is in order wherever a host's reload has led it. -/
theorem Document.WellFormed.inOrder_reloading {d : Document} (h : d.WellFormed) (env : Environment)
    (reloading : Reloading) (disk : Disk) :
    (reloading.run env d disk).result.1.InOrder d.name := by
  have hevolves := EvolvesIn.run env reloading reloading.addsOnly_true d d.admits_true disk
  have hwell := (hevolves.wellFormed h).inOrder
  rw [hevolves.name_eq] at hwell
  exact hwell

/-! ## What operations exchange -/

/-- The operations of a section are refused and change nothing, or they exchange what they are asked
for. -/
structure Body.Exact (b : Body) : Prop where
  /-- A definition is refused if the section does not accept it. -/
  define : ∀ d, (¬b.Accepts d ∧ ∃ failure, (b.define d).result = (b, .error failure)) ∨
    ∃ b' e, (b.define d).result = (b', .ok e) ∧ b.Accepts d ∧ e.name = d.plainName ∧
      b.entry? e.name = none ∧ Exchanged [] [e] b.entries b'.entries
  /-- A removal is refused if there is nothing to remove. -/
  remove : ∀ name,
    (b.entry? name = none ∧ ∃ failure, (b.remove name).result = (b, .error failure)) ∨
    ∃ b' e, (b.remove name).result = (b', .ok ()) ∧ b.entry? name = some e ∧
      Exchanged [e] [] b.entries b'.entries
  clear : b.clear.result.entries = []
  /-- A rename is refused if the new name is empty or taken, or there is nothing to rename. -/
  rename : ∀ name newName,
    ((newName = "" ∨ (b.entry? newName).isSome ∨ b.entry? name = none) ∧
      b.rename name newName = (b, false)) ∨
    ∃ b' e, b.rename name newName = (b', true) ∧ b.entry? name = some e ∧ newName ≠ "" ∧
      b.entry? newName = none ∧ Exchanged [e] [{ e with name := newName }] b.entries b'.entries
  mutate : ∀ name m,
    (b.entry? name = none ∧ (b.mutate name m).result = (b, none)) ∨
    ∃ b' e, (b.mutate name m).result = (b', some (e.mutate m).result.2) ∧
      b.entry? name = some e ∧ Exchanged [e] [(e.mutate m).result.1] b.entries b'.entries

/-- The operations of a file are refused and change nothing, or they exchange what they are asked
for. -/
structure Document.Exact (d : Document) : Prop where
  /-- A section is refused if its name is taken or blank. -/
  addSection : ∀ palette definition,
    (((d.section? definition.name).isSome ∨ ¬Visible definition.name) ∧
      ∃ failure, d.addSection palette definition = (d, .error failure)) ∨
    ∃ d' s, d.addSection palette definition = (d', .ok ()) ∧ s.name = definition.name ∧
      Visible s.name ∧ d.section? s.name = none ∧ Exchanged [] [s] d.sections d'.sections
  removeSection : ∀ name,
    (d.section? name = none ∧ ∃ failure, (d.removeSection name).result = (d, .error failure)) ∨
    ∃ d' s, (d.removeSection name).result = (d', .ok ()) ∧ d.section? name = some s ∧
      Exchanged [s] [] d.sections d'.sections
  clear : d.clear.result.sections = []
  onSection : ∀ {α : Type} name (f : Section → Traced (Section × α)),
    (d.section? name = none ∧ (d.onSection name f).result = (d, none)) ∨
    ∃ d' s, (d.onSection name f).result = (d', some (f s).result.2) ∧ d.section? name = some s ∧
      Exchanged [s] [(f s).result.1] d.sections d'.sections

/-- The operations of a registry are refused and change nothing, or they exchange what they are
asked for. A rename redirects other options too, so it is their addresses that are compared. -/
structure Registry.Exact (r : Registry) : Prop where
  /-- A file is refused if its name, less the priority, is taken or blank. -/
  addFile : ∀ name,
    (((r.document? (Document.splitPriority name).2).isSome ∨
        ¬Visible (Document.splitPriority name).2) ∧
      ∃ failure, r.addFile name = (r, .error failure)) ∨
    ∃ r' d, r.addFile name = (r', .ok ()) ∧ d.name = (Document.splitPriority name).2 ∧
      Visible d.name ∧ r.document? d.name = none ∧ Exchanged [] [d] r.documents r'.documents
  removeFile : ∀ name,
    (r.document? name = none ∧ ∃ failure, (r.removeFile name).result = (r, .error failure)) ∨
    ∃ r' d, (r.removeFile name).result = (r', .ok ()) ∧ r.document? name = some d ∧
      Exchanged [d] [] r.documents r'.documents
  clear : r.clear.result.documents = []
  onDocument : ∀ {α : Type} name (f : Document → Traced (Document × α)),
    (r.document? name = none ∧ (r.onDocument name f).result = (r, none)) ∨
    ∃ r' d, (r.onDocument name f).result = (r', some (f d).result.2) ∧ r.document? name = some d ∧
      Exchanged [d] [(f d).result.1] r.documents r'.documents
  /-- A rename is refused if the path leads to nothing, or the new name is empty or taken. -/
  renameOption : ∀ path newName,
    (¬r.CanRename path newName ∧ (r.renameOption path newName).result.1 = r ∧
      (r.renameOption path newName).result.2 ≠ .ok true) ∨
    ∃ r' a, (r.renameOption path newName).result = (r', .ok true) ∧
      r.CanRename path newName ∧ Address.ofPath? path = some a ∧
      r.entryAt? { a with option := newName } = none ∧
      Exchanged [a] [{ a with option := newName }] (r.entries.map fun e => e.address)
        (r'.entries.map fun e => e.address)

/-- The operations of a section do what they are asked for, or are refused for a reason. -/
theorem Body.exact (b : Body) : b.Exact where
  define d := by
    rcases b.define_cases d with ⟨haccepts, e, hgains⟩ | ⟨hrefuses, failure, hdefine⟩
    · right
      obtain ⟨entries, hb', hperm⟩ := hgains.added
      have hname : e.name = d.plainName := congrArg Address.option hgains.address
      have hfree : b.entry? e.name = none := by
        rw [hname]
        exact Roster.find?_eq_none.2 haccepts.free
      exact ⟨{ b with entries }, e, Prod.ext hb' hgains.result, haccepts, hname, hfree,
        b.entries, .refl _, hperm⟩
    · left
      rw [hdefine]
      exact ⟨hrefuses, failure, rfl⟩
  remove name := by
    unfold Body.remove
    split
    · next hnone => exact .inl ⟨hnone, _, rfl⟩
    · next e he => exact .inr ⟨_, e, rfl, he, Roster.exchanged_erase he⟩
  clear := rfl
  rename name newName := by
    unfold Body.rename
    split
    · next htaken => exact .inl ⟨htaken.imp_right .inl, rfl⟩
    · next hfree =>
      obtain ⟨hne, hnew⟩ := not_or.1 hfree
      split
      · next hnone => exact .inl ⟨.inr (.inr hnone), rfl⟩
      · next e he =>
        exact .inr ⟨_, e, rfl, he, hne, by simpa using hnew, Roster.exchanged_insert_erase he _⟩
  mutate name m := by
    unfold Body.mutate Body.change
    split
    · next hnone => exact .inl ⟨hnone, rfl⟩
    · next e he => exact .inr ⟨_, e, rfl, he, Roster.exchanged_replace he _⟩

/-- The operations of a file do what they are asked for, or are refused for a reason. -/
theorem Document.exact (d : Document) : d.Exact where
  addSection palette definition := by
    unfold Document.addSection
    split
    · next htaken => exact .inl ⟨.inl htaken, _, rfl⟩
    · next hnew =>
      split
      · next hrefused =>
        refine .inl ⟨.inr fun hvisible => ?_, _, rfl⟩
        obtain ⟨s, hs⟩ := Section.exists_ofDefinition?_iff.2 hvisible
        rw [hrefused] at hs
        cases hs
      · next s hs =>
        have hname : s.name = definition.name := by rw [Section.eq_of_ofDefinition? hs]
        have hnone : d.section? s.name = none := by simpa [hname] using hnew
        exact .inr ⟨_, s, rfl, hname, Section.visible_of_ofDefinition? hs, hnone,
          Roster.exchanged_insert s d.sections⟩
  removeSection name := by
    unfold Document.removeSection
    split
    · next hnone => exact .inl ⟨hnone, _, rfl⟩
    · next s hs => exact .inr ⟨_, s, rfl, hs, Roster.exchanged_erase hs⟩
  clear := rfl
  onSection name f := by
    unfold Document.onSection
    split
    · next hnone => exact .inl ⟨hnone, rfl⟩
    · next s hs => exact .inr ⟨_, s, rfl, hs, Roster.exchanged_replace hs _⟩

namespace Registry

variable {r : Registry}

/-- The options after a change of all are the changed ones. -/
theorem entries_mapEntries (r : Registry) (f : Entry → Entry) :
    (r.mapEntries f).entries = r.entries.map f := by
  simp only [entries, mapEntries, List.flatMap_map, List.map_flatMap]

/-- What is exchanged in a section is exchanged in the registry. -/
theorem exchanged_putEntries {a : Address} {d : Document} {s : Section} {entries : List Entry}
    (hd : r.document? a.file = some d) (hs : d.section? a.sectionName = some s)
    {before after : List Entry} (h : Exchanged before after s.entries entries) :
    Exchanged before after r.entries (r.putEntries d s entries).entries := by
  have hdname : d.name = a.file := Roster.name_of_find?_eq_some hd
  have hsname : s.name = a.sectionName := Roster.name_of_find?_eq_some hs
  rw [← hdname] at hd
  rw [← hsname] at hs
  -- What is exchanged in the section is exchanged in its file, and so in the registry.
  let optionsOf (d : Document) : List Entry := d.sections.flatMap fun s => s.entries
  let d' : Document :=
    { d with sections := Roster.replace s.name { s with entries } d.sections }
  have hsection : Exchanged before after (optionsOf d) (optionsOf d') := by
    have hreplace := (Roster.exchanged_replace hs { s with entries }).flatMap fun s => s.entries
    simp only [List.flatMap_singleton] at hreplace
    exact hreplace.within h
  have hreplace := (Roster.exchanged_replace hd d').flatMap optionsOf
  simp only [List.flatMap_singleton] at hreplace
  exact hreplace.within hsection

/-- A redirected parent is no part of an address. -/
theorem address_redirect (old new : String) (e : Entry) :
    (redirect old new e).address = e.address := by
  unfold redirect
  split <;> rfl

/-- A new name changes no address but the option's own. -/
theorem WellFormed.exchanged_addresses (h : r.WellFormed) {a : Address} {d : Document}
    {s : Section} {e : Entry} (hd : r.document? a.file = some d)
    (hs : d.section? a.sectionName = some s) (he : s.entry? a.option = some e) (newName : String) :
    Exchanged [a] [{ a with option := newName }] (r.entries.map fun e => e.address)
      ((r.afterRename d s e a newName).entries.map fun e => e.address) := by
  have hput := exchanged_putEntries hd hs
    (Roster.exchanged_insert_erase he { e with name := newName })
  have haddress : e.address = a :=
    (h.mem_of_entryAt? (entryAt?_eq_some_iff.2 ⟨d, s, hd, hs, he⟩)).2
  have hmoved := hput.map fun e => e.address
  unfold afterRename
  rw [entries_mapEntries, List.map_map]
  simp only [Function.comp_def, address_redirect]
  rw [List.map_singleton, List.map_singleton, haddress] at hmoved
  have hnew : ({ e with name := newName } : Entry).address = { a with option := newName } := by
    rw [← haddress]
    rfl
  rwa [hnew] at hmoved

/-- The operations of a registry do what they are asked for, or are refused for a reason. -/
theorem WellFormed.exact (h : r.WellFormed) : r.Exact where
  addFile name := by
    unfold Registry.addFile
    dsimp only
    split
    · next htaken => exact .inl ⟨.inl htaken, _, rfl⟩
    · next hnew =>
      split
      · next hrefused =>
        refine .inl ⟨.inr fun hvisible => ?_, _, rfl⟩
        obtain ⟨d, hd⟩ := Document.exists_ofName?_iff.2 hvisible
        rw [hrefused] at hd
        cases hd
      · next d hd =>
        have hname : d.name = (Document.splitPriority name).2 := by rw [Document.eq_of_ofName? hd]
        have hnone : r.document? d.name = none := by simpa [hname] using hnew
        exact .inr ⟨_, d, rfl, hname, Document.visible_of_ofName? hd, hnone,
          Roster.exchanged_insert d r.documents⟩
  removeFile name := by
    unfold Registry.removeFile
    split
    · next hnone => exact .inl ⟨hnone, _, rfl⟩
    · next d hd => exact .inr ⟨_, d, rfl, hd, Roster.exchanged_erase hd⟩
  clear := rfl
  onDocument name f := by
    unfold Registry.onDocument
    split
    · next hnone => exact .inl ⟨hnone, rfl⟩
    · next d hd => exact .inr ⟨_, d, rfl, hd, Roster.exchanged_replace hd _⟩
  renameOption path newName := by
    -- What a rename does to the parents of others shows in no address.
    rcases renameOption_spec r path newName with
      ⟨hsame, hanswer, -, hcannot⟩ | ⟨a, d, s, e, hpath, hd, hs, he, hne, hnew, hresult, -⟩
    · exact .inl ⟨hcannot, hsame, hanswer⟩
    · have hfound : r.entryAt? a = some e := entryAt?_eq_some_iff.2 ⟨d, s, hd, hs, he⟩
      have hfree : r.entryAt? { a with option := newName } = none := by
        simp only [entryAt?, section?, hd, hs, Option.bind_eq_bind, Option.bind_some, hnew]
      have hcan : r.CanRename path newName := ⟨a, hpath, by rw [hfound]; rfl, hne, hfree⟩
      exact .inr ⟨_, a, hresult, hcan, hpath, hfree, h.exchanged_addresses hd hs he newName⟩

end Registry

/-- In a registry that a host can bring about all rosters are in order, and they stay so while a
script or a host's reload is at work; and operations on registries, files and sections, in whatever
state these are, exchange what they are asked for. -/
theorem Registry.inOrder_and_exact {r : Registry} (hr : r.Reachable) :
    r.InOrder ∧
      (∀ d ∈ r.documents, ∀ s ∈ d.sections, ∀ {α : Type} (script : Script α),
        (script.run s.toBody).result.1.InOrder d.name s.name) ∧
      (∀ d ∈ r.documents, ∀ (reloading : Reloading) disk,
        (reloading.run r.env d disk).result.1.InOrder d.name) ∧
      r.Exact ∧ (∀ d : Document, d.Exact) ∧ ∀ b : Body, b.Exact := by
  have hwell := hr.wellFormed
  refine ⟨hwell.inOrder, ?_, ?_, hwell.exact, Document.exact, Body.exact⟩
  · intro d hd s hs α script
    have hd' := hwell.documents d hd
    have hscript := (hd'.sections s hs).inOrder_script script
    rw [hd'.owner s hs] at hscript
    exact hscript
  · intro d hd reloading disk
    exact (hwell.documents d hd).inOrder_reloading r.env reloading disk

/-- The second of three options is found in the middle, and moves behind the third one under a name
of its own, with the address of no other option changed. -/
theorem Registry.inOrder_and_exact_displaced :
    (displaced.documents.map fun d => d.sections.map fun s => (Roster.names s.entries,
        (Roster.search "base" s.entries).toOption)) = [[(["attic", "base", "child"], some 1)]] ∧
      displaced.InOrder ∧
      ∃ r', (displaced.renameOption "app.look.base" "den").result = (r', .ok true) ∧
        Exchanged [⟨"app", "look", "base"⟩] [⟨"app", "look", "den"⟩]
          (displaced.entries.map fun e => e.address) (r'.entries.map fun e => e.address) := by
  obtain ⟨hinOrder, -, -, hexact, -, -⟩ := inOrder_and_exact reachable_displaced
  refine ⟨by decide +kernel, hinOrder, ?_⟩
  obtain ⟨r', hdone⟩ : ∃ r', (displaced.renameOption "app.look.base" "den").result =
      (r', .ok true) := exists_of_renameOption (by decide +kernel)
  rcases hexact.renameOption "app.look.base" "den" with
    ⟨-, -, hrefused⟩ | ⟨r', a, hresult, -, hpath, -, haddresses⟩
  · exact absurd (congrArg Prod.snd hdone) hrefused
  · have ha : Address.ofPath? "app.look.base" = some ⟨"app", "look", "base"⟩ := by decide +kernel
    obtain rfl := Option.some.inj (ha.symm.trans hpath)
    exact ⟨r', hresult, haddresses⟩

end TypedConfig
