import TypedConfig.Proofs.Commutation
import TypedConfig.Proofs.Renaming

/-!
# Options at their full names

The full name of an option joins three names with dots, and a path is split at its first two. A host
may give a file or a section any name that is not blank, one with dots too, and then the full names
of its options are split elsewhere: they lead to nothing (`Registry.entry?_fullName_obscured`) or to
another option. They lead back to their options where neither of the two names holds a dot, and
nowhere else (`Registry.reaches_fullName_iff`). There a set, an unset and a rename by the full name
act on that very option (`Registry.Reaches`).

All three come down to one section of one file, in which the option is found under its name.
-/

namespace TypedConfig

/-- A full name gives the address that it comes of, where no dot comes between, and only there. -/
theorem Cell.ofPath?_fullName_iff {c : Cell} :
    Address.ofPath? c.fullName = some c.address ↔
      '.' ∉ c.file.toList ∧ '.' ∉ c.sectionName.toList :=
  ⟨fun h => (Address.path_of_ofPath? h).2, fun h => Address.ofPath?_path h.1 h.2⟩

/-- With a hook that removes options an unset is a call of that hook. -/
theorem Section.unset_of_hook {s : Section} {name : String} {e : Entry}
    (he : s.entry? name = some e) (hdelete : s.canDelete = true)
    {hook : String → Script UnsetOutcome} (hhook : s.hooks.delete = some hook) :
    s.unset name = ⟨.removalRequested s.name name :: ((hook name).run s.toBody).events,
      { s with toBody := ((hook name).run s.toBody).result.1 },
      ((hook name).run s.toBody).result.2⟩ := by
  simp only [Section.unset, he, hdelete, hhook]
  show (⟨[_] ++ (_ ++ []), _⟩ : Traced _) = _
  rw [List.append_nil]
  rfl

namespace Registry

variable {r : Registry}

/-! ## What is done in one section -/

/-- Only what is asked of the section that is there counts. -/
theorem onSection_congr_of_section? {α : Type} {file sectionName : String} {s : Section}
    (hs : r.section? file sectionName = some s) {f g : Section → Traced (Section × α)}
    (h : f s = g s) : r.onSection file sectionName f = r.onSection file sectionName g := by
  obtain ⟨d, hd, hs⟩ := Option.bind_eq_some_iff.1 hs
  simp only [onSection, onDocument, hd, Document.onSection, hs, h]

/-- The answer is that of the section, if it is there. -/
theorem answer_onSection {α : Type} (r : Registry) (file sectionName : String)
    (f : Section → Traced (Section × α)) :
    (r.onSection file sectionName f).result.2 =
      (r.section? file sectionName).map fun s => (f s).result.2 := by
  unfold onSection onDocument section? Document.onSection
  cases hd : r.document? file with
  | none => rfl
  | some d =>
    cases hs : d.section? sectionName with
    | none => simp [hs]
    | some s => simp [hs]

/-- What is done in a section of a file is seen under its names. -/
theorem WellFormed.section?_onSection {α : Type} (hr : r.WellFormed) (file sectionName : String)
    {f : Section → Traced (Section × α)} (hf : ∀ s, (f s).result.1.name = s.name) :
    (r.onSection file sectionName f).result.1.section? file sectionName =
      (r.section? file sectionName).map fun s => (f s).result.1 := by
  have hdocument : (r.onSection file sectionName f).result.1.document? file =
      (r.document? file).map fun d => (d.onSection sectionName f).result.1 :=
    (hr.document?_onDocument (fun d => d.name_onSection sectionName f) file file).trans (if_pos rfl)
  unfold section?
  rw [hdocument]
  cases hd : r.document? file with
  | none => rfl
  | some d =>
    have hdwell := hr.documents d (Roster.mem_of_find?_eq_some hd)
    exact (hdwell.section?_onSection hf sectionName sectionName).trans (if_pos rfl)

/-! ## What is done to one option -/

/-- An operation on the registry that does to what stands at an address what `y` does to it: the
answer and the events are those of `y`, and all other options are as they were. -/
structure ActsAt {α : Type} (r : Registry) (a : Address) (x : Traced (Registry × α))
    (y : Traced (Option Entry × α)) : Prop where
  answer : x.result.2 = y.result.2
  events : x.events = y.events
  there : x.result.1.entryAt? a = y.result.1
  others : ∀ b, b ≠ a → x.result.1.entryAt? b = r.entryAt? b

/-- A plain touch acts on what stands at the address that its path gives. -/
theorem WellFormed.actsAt_plainly (hr : r.WellFormed) {path : String} {a : Address}
    (ha : Address.ofPath? path = some a) {s : Section}
    (hs : r.section? a.file a.sectionName = some s) (t : Touch) :
    r.ActsAt a (t.plainly r path) (t.act s.toBody a.option path (s.entry? a.option)) where
  answer := by
    simp only [Touch.plainly, ha, Traced.result_bind, Traced.result_pure, answer_onSection, hs]
    rfl
  events := by
    simp only [Touch.plainly, ha, Traced.events_bind, Traced.events_pure, List.append_nil,
      events_onSection, hs]
    show ((t.act s.toBody a.option path (s.entry? a.option)).events ++ []) ++ [] = _
    rw [List.append_nil, List.append_nil]
  there := by
    have hsection := hr.section?_onSection a.file a.sectionName
      (f := fun s => s.touch a.option path t) fun _ => rfl
    rw [hs] at hsection
    have hsorted : Roster.Sorted s.entries := by
      obtain ⟨d, hd, hs⟩ := Option.bind_eq_some_iff.1 hs
      have hdwell := hr.documents d (Roster.mem_of_find?_eq_some hd)
      exact (hdwell.sections s (Roster.mem_of_find?_eq_some hs)).sorted
    simp only [Touch.plainly, ha, Traced.result_bind, Traced.result_pure, entryAt?, hsection]
    exact (Section.updatesTouch a.option path t).find?_self hsorted
  others b hb := Touch.entryAt?_plainly hr (fun heq => hb (Option.some.inj (heq.symm.trans ha))) t

variable {e : Entry} {path : String}

/-- A rename of an option that is found takes place where the new name is free and not empty. -/
theorem renameOption_of_found {a : Address} (ha : Address.ofPath? path = some a) {d : Document}
    {s : Section} (hd : r.document? a.file = some d) (hs : d.section? a.sectionName = some s)
    (he : s.entry? a.option = some e) (newName : String) :
    (r.renameOption path newName).result =
      if newName = "" ∨ (s.entry? newName).isSome then (r, .ok false)
      else (r.afterRename d s e a newName, .ok true) := by
  have hat : r.entryAt? a = some e := entryAt?_eq_some_iff.2 ⟨d, s, hd, hs, he⟩
  have hfilter : (Address.ofPath? path).filter (fun a => (r.entryAt? a).isSome) = some a := by
    simp [ha, hat]
  have hdname : d.name = a.file := Roster.name_of_find?_eq_some hd
  have hsname : s.name = a.sectionName := Roster.name_of_find?_eq_some hs
  simp only [renameOption, hfilter, onSection, onDocument, hd, Document.onSection, hs,
    Section.onBody, Body.rename, he]
  by_cases htaken : newName = "" ∨ (s.entry? newName).isSome
  · simp [htaken, Roster.replace_self hs, Roster.replace_self hd]
  · simp [htaken, followRename, afterRename, putEntries, hdname, hsname]

/-- What a path lets a host do whose look-up finds the option `e`. -/
structure Reaches (r : Registry) (path : String) (e : Entry) : Prop where
  found : r.entry? path = some e
  /-- A set is one of that option. -/
  set : ∀ value, r.ActsAt e.address (r.setOption path value) do
    let (e, answer) ← e.set value
    pure (some e, answer)
  /-- So is an unset, by removal or reset, where no hook removes options. -/
  unset : ∀ s, r.section? e.file e.sectionName = some s → s.hooks.delete = none →
    r.ActsAt e.address (r.unsetOption path) (Touch.unset.act s.toBody e.name path (some e))
  /-- A hook that removes options is asked for that option, in its section. -/
  unset_hook : ∀ s hook, r.section? e.file e.sectionName = some s → s.canDelete = true →
    s.hooks.delete = some hook →
    (r.unsetOption path).events =
        .removalRequested e.sectionName e.name :: ((hook e.name).run s.toBody).events ∧
      (r.unsetOption path).result.2 = ((hook e.name).run s.toBody).result.2 ∧
      (r.unsetOption path).result.1.section? e.file e.sectionName =
        some { s with toBody := ((hook e.name).run s.toBody).result.1 }
  /-- A rename is refused if the new name is empty or taken. -/
  rename_refused : ∀ newName,
    newName = "" ∨ (r.entryAt? { e.address with option := newName }).isSome →
    (r.renameOption path newName).result = (r, .ok false)
  /-- Any other rename moves that option to its new address. -/
  renamed : ∀ newName, newName ≠ "" → r.entryAt? { e.address with option := newName } = none →
    ∃ r', (r.renameOption path newName).result = (r', .ok true) ∧
      r'.entryAt? { e.address with option := newName } = some (e.afterRename newName e) ∧
      r'.entryAt? e.address = none ∧
      ∀ a, a ≠ e.address → a ≠ { e.address with option := newName } →
        r'.entryAt? a = (r.entryAt? a).map (e.afterRename newName)

/-- An unset of an option that is found is one in its section. -/
theorem WellFormed.unsetOption_of_found (hr : r.WellFormed) {a : Address}
    (ha : Address.ofPath? path = some a) {s : Section}
    (hs : r.section? a.file a.sectionName = some s) :
    (r.unsetOption path).events = (s.unset a.option).events ∧
      (r.unsetOption path).result.2 = (s.unset a.option).result.2 ∧
      (r.unsetOption path).result.1.section? a.file a.sectionName =
        some (s.unset a.option).result.1 := by
  have hsections := hr.section?_onSection a.file a.sectionName
    (f := fun s => s.unset a.option) fun s => (Section.Evolves.unset s a.option).names_eq.2
  have hevents := r.events_onSection a.file a.sectionName fun s => s.unset a.option
  have hanswer := r.answer_onSection a.file a.sectionName fun s => s.unset a.option
  rw [hs, Option.map_some] at hsections hevents hanswer
  simp only [unsetOption, ha, Traced.events_bind, Traced.result_bind, Traced.events_pure,
    Traced.result_pure, List.append_nil, hsections, hevents, hanswer, Option.getD_some, and_self]

/-- A rename that is not refused moves an option that is found to its new address. -/
theorem WellFormed.renameOption_of_free (hr : r.WellFormed)
    (hpath : Address.ofPath? path = some e.address) {d : Document} {s : Section}
    (hd : r.document? e.address.file = some d) (hs : d.section? e.address.sectionName = some s)
    (he : s.entry? e.address.option = some e) {newName : String} (hne : newName ≠ "")
    (hfree : s.entry? newName = none) :
    ∃ r', (r.renameOption path newName).result = (r', .ok true) ∧
      r'.entryAt? { e.address with option := newName } = some (e.afterRename newName e) ∧
      r'.entryAt? e.address = none ∧
      ∀ a, a ≠ e.address → a ≠ { e.address with option := newName } →
        r'.entryAt? a = (r.entryAt? a).map (e.afterRename newName) := by
  have hdone : (r.renameOption path newName).result =
      (r.afterRename d s e e.address newName, .ok true) := by
    rw [renameOption_of_found hpath hd hs he newName, if_neg]
    rw [hfree]
    simpa using hne
  have hevolves : r.Evolves (r.renameOption path newName).events
      (r.renameOption path newName).result.1 := .rename r path newName
  have hwell := hevolves.wellFormed hr
  rw [hdone] at hwell
  have hentries : (r.afterRename d s e e.address newName).entries.Perm
      (r.entries.map (e.afterRename newName)) := hr.perm_entries_afterRename hd hs he
  have hmem : e ∈ r.entries :=
    (hr.mem_of_entryAt? (entryAt?_eq_some_iff.2 ⟨d, s, hd, hs, he⟩)).1
  have hnew : newName ≠ e.name := by
    rintro rfl
    have hname : s.entry? e.name = some e := he
    rw [hfree] at hname
    cases hname
  have hself := hwell.entryAt?_afterRename hentries hmem
  rw [Entry.address_afterRename_self] at hself
  exact ⟨_, hdone, hself, hwell.entryAt?_old hentries hnew,
    fun a hold hnew => hr.entryAt?_of_ne hwell hentries hold hnew⟩

/-- A path that gives the address of an option reaches it. -/
theorem WellFormed.reaches (hr : r.WellFormed) (he : e ∈ r.entries)
    (hpath : Address.ofPath? path = some e.address) : r.Reaches path e := by
  have hat : r.entryAt? e.address = some e := hr.entryAt?_address he
  obtain ⟨d, s, hd, hs, hentry⟩ := entryAt?_eq_some_iff.1 hat
  have hsection : r.section? e.address.file e.address.sectionName = some s := by
    unfold section?
    rw [hd]
    exact hs
  -- Other names of the section are looked up where this one was found.
  have hother (name : String) : r.entryAt? { e.address with option := name } = s.entry? name := by
    show (r.section? e.address.file e.address.sectionName).bind (fun s => s.entry? name) = _
    rw [hsection, Option.bind_some]
  refine {
    found := ?found
    set := fun value => ?set
    unset := fun t ht hook => ?unset
    unset_hook := fun t hook ht hdelete hhook => ?unset_hook
    rename_refused := fun newName htaken => ?rename_refused
    renamed := fun newName hne hfree => ?renamed }
  case found =>
    unfold Registry.entry?
    rw [hpath]
    exact hat
  case set =>
    -- The section has the option, so no hook is asked, and what comes is the touch itself.
    have hplain : r.setOption path value = (Touch.set value).plainly r path := by
      simp only [setOption, Touch.plainly, hpath]
      refine congrArg (· >>= _) (onSection_congr_of_section? hsection ?_)
      simp only [hentry]
      exact Section.set_eq_touch hentry value path
    have hacts := hr.actsAt_plainly hpath hsection (.set value)
    rw [hentry] at hacts
    rw [hplain]
    exact hacts
  case unset =>
    obtain rfl := Option.some.inj (hsection.symm.trans ht)
    have hplain : r.unsetOption path = Touch.unset.plainly r path := by
      simp only [unsetOption, Touch.plainly, hpath]
      exact congrArg (· >>= _)
        (onSection_congr_of_section? hsection (Section.unset_eq_touch hentry hook path))
    have hacts := hr.actsAt_plainly hpath hsection .unset
    rw [hentry] at hacts
    rw [hplain]
    exact hacts
  case unset_hook =>
    obtain rfl := Option.some.inj (hsection.symm.trans ht)
    have hname : s.name = e.sectionName := Roster.name_of_find?_eq_some hs
    have hunset := hr.unsetOption_of_found hpath hsection
    rw [Section.unset_of_hook hentry hdelete hhook, hname] at hunset
    exact hunset
  case rename_refused =>
    rw [hother] at htaken
    rw [renameOption_of_found hpath hd hs hentry newName, if_pos htaken]
  case renamed =>
    rw [hother] at hfree
    exact hr.renameOption_of_free hpath hd hs hentry hne hfree

/-! ## Full names -/

/-- In a registry that a host can bring about, an option is found by its full name exactly where
neither its file's name nor its section's holds a dot. All that a host then does by the full name is
done to that very option, and no other option of which this holds has the same full name. -/
theorem reaches_fullName_iff (hr : r.Reachable) (he : e ∈ r.entries) :
    (r.entry? e.fullName = some e ↔ '.' ∉ e.file.toList ∧ '.' ∉ e.sectionName.toList) ∧
      (r.entry? e.fullName = some e → r.Reaches e.fullName e ∧
        ∀ f ∈ r.entries, '.' ∉ f.file.toList → '.' ∉ f.sectionName.toList →
          f.fullName = e.fullName → f = e) := by
  have hwell := hr.wellFormed
  have hpath (h : r.entry? e.fullName = some e) :
      Address.ofPath? e.fullName = some e.address := by
    obtain ⟨a, ha, hat⟩ := Option.bind_eq_some_iff.1 h
    rw [ha, (hwell.mem_of_entryAt? hat).2]
  refine ⟨⟨fun h => Cell.ofPath?_fullName_iff.1 (hpath h), fun h => ?_⟩, fun h => ?_⟩
  · exact (hwell.reaches he (Cell.ofPath?_fullName_iff.2 h)).found
  · refine ⟨hwell.reaches he (hpath h), fun f hf hfile hsection hname => ?_⟩
    have hfound := (hwell.reaches hf (Cell.ofPath?_fullName_iff.2 ⟨hfile, hsection⟩)).found
    rw [hname] at hfound
    exact Option.some.inj (hfound.symm.trans h)

/-- In a registry without dots in names of files and sections, a path with three dots reaches its
option. -/
theorem reaches_fullName_heirs :
    ∃ e ∈ heirs.entries, e.fullName = "app.look.server.name" ∧
      heirs.Reaches "app.look.server.name" e := by
  have hreachable : heirs.Reachable := by
    unfold heirs
    exact ⟨{ dir := "/etc" }, inheriting, {}, rfl⟩
  obtain ⟨e, he, hname, hfile, hsection⟩ : ∃ e ∈ heirs.entries,
      e.fullName = "app.look.server.name" ∧ e.file = "app" ∧ e.sectionName = "look" := by
    decide +kernel
  obtain ⟨hfound, hreaches⟩ := reaches_fullName_iff hreachable he
  have hdots : '.' ∉ e.file.toList ∧ '.' ∉ e.sectionName.toList := by
    rw [hfile, hsection]
    decide +kernel
  exact ⟨e, he, hname, hname ▸ (hreaches (hfound.2 hdots)).1⟩

/-- A run that makes an option in a file whose name holds a dot. -/
def obscuring : List Operation :=
  [.addFile "my.app", .addSection "my.app" { name := "look" },
    .edit "my.app" "look"
      (.define { name := "depth", kind := .integer, hi := 9, default := some "1" } fun _ =>
        .finish (.ok ()))]

/-- What `obscuring` leads to. -/
def obscured : Registry :=
  (run obscuring { env := { dir := "/etc" } } {}).result.1

/-- The option is there, but its full name leads to the section `app` of a file `my`, and nobody can
set it by its full name. -/
theorem entry?_fullName_obscured :
    obscured.Reachable ∧ ∃ e ∈ obscured.entries, e.fullName = "my.app.look.depth" ∧
      obscured.entry? e.fullName = none ∧
      (obscured.setOption e.fullName (some "7")).result.2 =
        .error (.notFound .section "my.app") := by
  have hreachable : obscured.Reachable := by
    unfold obscured
    exact ⟨{ dir := "/etc" }, obscuring, {}, rfl⟩
  obtain ⟨e, he, hname⟩ : ∃ e ∈ obscured.entries, e.fullName = "my.app.look.depth" := by
    decide +kernel
  refine ⟨hreachable, e, he, hname, ?_, ?_⟩
  · have hnone : (obscured.entry? "my.app.look.depth").isNone = true := by decide +kernel
    rw [hname]
    exact Option.isNone_iff_eq_none.1 hnone
  · rw [hname]
    rfl

end Registry

end TypedConfig
