import TypedConfig.Proofs.Containers

/-!
# What a rename does

A rename gives one option another name, points the options whose parent had the old path at the new
one, and changes nothing else about any option (`Entry.afterRename`, `Registry.Renamed`). One value
is published, that of the option under its new path. An option whose parent was not to be found
under the new path already inherits what it inherited before.

The proof goes by addresses: no two options share one, so all options but the renamed one are found
where they were, and a parent's path leads to what the same parent has become.
-/

namespace TypedConfig

/-- What becomes of an option when `o` is given another name. -/
def Entry.afterRename (o : Entry) (newName : String) (e : Entry) : Entry :=
  { e with
    name := if e.address = o.address then newName else e.name
    parent := if e.parent = some o.fullName then some { o with name := newName : Entry }.fullName
      else e.parent
    knownParent := none }

/-- The order of file, section and option names. -/
def Address.Before (a b : Address) : Prop :=
  a.file < b.file ∨ a.file = b.file ∧ (a.sectionName < b.sectionName ∨
    a.sectionName = b.sectionName ∧ a.option < b.option)

/-- No address comes before itself. -/
theorem Address.Before.ne {a b : Address} (h : a.Before b) : a ≠ b := by
  rintro rfl
  rcases h with hfile | ⟨-, hsection | ⟨-, hoption⟩⟩
  · exact String.lt_irrefl _ hfile
  · exact String.lt_irrefl _ hsection
  · exact String.lt_irrefl _ hoption

namespace Entry

/-- The renamed option has the new name, and a redirected parent if that was its own path. -/
theorem afterRename_self (o : Entry) (newName : String) :
    o.afterRename newName o =
      Registry.redirect o.fullName { o with name := newName : Entry }.fullName
        { o with name := newName } := by
  unfold afterRename Registry.redirect
  rw [if_pos rfl]
  dsimp only
  split
  · rfl
  · rfl

/-- Another option has a redirected parent at most. -/
theorem afterRename_of_ne {o e : Entry} (h : e.address ≠ o.address) (newName : String) :
    o.afterRename newName e =
      Registry.redirect o.fullName { o with name := newName : Entry }.fullName e := by
  unfold afterRename Registry.redirect
  rw [if_neg h]
  split
  · rfl
  · rfl

/-- A parent of the old path is one of the new path. -/
theorem parent_afterRename (o : Entry) (newName : String) (e : Entry) :
    (o.afterRename newName e).parent = if e.parent = some o.fullName then
      some { o with name := newName : Entry }.fullName else e.parent := rfl

/-- The renamed option has the new address. -/
theorem address_afterRename_self (o : Entry) (newName : String) :
    (o.afterRename newName o).address = { o.address with option := newName } := by
  unfold afterRename
  rw [if_pos rfl]
  rfl

/-- The renamed option has the new path. -/
theorem fullName_afterRename_self (o : Entry) (newName : String) :
    (o.afterRename newName o).fullName = { o with name := newName : Entry }.fullName :=
  congrArg Address.path (address_afterRename_self o newName)

/-- Another option keeps its address. -/
theorem address_afterRename_of_ne {o e : Entry} (h : e.address ≠ o.address) (newName : String) :
    (o.afterRename newName e).address = e.address := by
  unfold afterRename
  rw [if_neg h]
  rfl

end Entry

namespace Registry

variable {r r' : Registry} {o : Entry} {newName : String}

/-- The options stand in the order of file, section and option names. -/
theorem WellFormed.pairwise_entries (h : r.WellFormed) :
    r.entries.Pairwise fun e f => e.address.Before f.address := by
  refine List.pairwise_flatMap.2 ⟨fun d hd => ?_, ?_⟩
  · have hdwell := h.documents d hd
    have hfile {s : Section} (hs : s ∈ d.sections) {e : Entry} (he : e ∈ s.entries) :
        e.file = d.name := ((hdwell.sections s hs).entries e he).file_eq.trans (hdwell.owner s hs)
    refine List.pairwise_flatMap.2 ⟨fun s hs => ?_, ?_⟩
    · -- Options of one section are in the order of their own names.
      have hbody := hdwell.sections s hs
      refine hbody.sorted.imp_of_mem fun he hf hlt => .inr ⟨?_, .inr ⟨?_, hlt⟩⟩
      · exact (hfile hs he).trans (hfile hs hf).symm
      · exact (hbody.entries _ he).sectionName_eq.trans (hbody.entries _ hf).sectionName_eq.symm
    · -- Options of different sections are in that of the sections' names, which they carry.
      refine hdwell.sorted.imp_of_mem fun hs ht hlt e he f hf => .inr ⟨?_, .inl ?_⟩
      · exact (hfile hs he).trans (hfile ht hf).symm
      · show e.sectionName < f.sectionName
        rw [((hdwell.sections _ hs).entries e he).sectionName_eq,
          ((hdwell.sections _ ht).entries f hf).sectionName_eq]
        exact hlt
  · -- And so are options of different files in that of the files' names.
    refine h.sorted.imp_of_mem fun hc hd hlt e he f hf => .inl ?_
    obtain ⟨s, hs, he⟩ := List.mem_flatMap.1 he
    obtain ⟨t, ht, hf⟩ := List.mem_flatMap.1 hf
    have hcwell := h.documents _ hc
    have hdwell := h.documents _ hd
    show e.file < f.file
    rw [((hcwell.sections s hs).entries e he).file_eq, hcwell.owner s hs,
      ((hdwell.sections t ht).entries f hf).file_eq, hdwell.owner t ht]
    exact hlt

/-- No two options have the same address. -/
theorem WellFormed.nodup_addresses (h : r.WellFormed) :
    (r.entries.map fun e => e.address).Nodup :=
  List.pairwise_map.2 (h.pairwise_entries.imp fun hbefore => hbefore.ne)

/-- After a rename the options are what `Entry.afterRename` makes of them. -/
theorem WellFormed.perm_entries_afterRename (h : r.WellFormed) {d : Document} {s : Section}
    (hd : r.document? o.address.file = some d) (hs : d.section? o.address.sectionName = some s)
    (ho : s.entry? o.address.option = some o) :
    (r.afterRename d s o o.address newName).entries.Perm
      (r.entries.map (o.afterRename newName)) := by
  obtain ⟨rest, hbefore, hafter⟩ := exchanged_putEntries hd hs
    (Roster.exchanged_insert_erase ho { o with name := newName })
  rw [List.singleton_append] at hbefore hafter
  -- The option is there once, so no other one is taken for it.
  have hnodup := h.nodup_addresses
  rw [(hbefore.map fun e => e.address).nodup_iff, List.map_cons, List.nodup_cons] at hnodup
  have hothers : rest.map (o.afterRename newName) =
      rest.map (redirect o.fullName { o with name := newName : Entry }.fullName) := by
    refine List.map_congr_left fun e he => Entry.afterRename_of_ne (fun heq => ?_) newName
    exact hnodup.1 (heq ▸ List.mem_map_of_mem he)
  have hrenamed := hafter.map (redirect o.fullName { o with name := newName : Entry }.fullName)
  rw [List.map_cons, ← Entry.afterRename_self, ← hothers, ← List.map_cons] at hrenamed
  unfold Registry.afterRename
  rw [entries_mapEntries]
  exact hrenamed.trans (hbefore.map _).symm

/-! ## Where options are found -/

/-- An option is found where it was, and the renamed one at its new address. -/
theorem WellFormed.entryAt?_afterRename (h' : r'.WellFormed)
    (hentries : r'.entries.Perm (r.entries.map (o.afterRename newName))) {e : Entry}
    (he : e ∈ r.entries) :
    r'.entryAt? (o.afterRename newName e).address = some (o.afterRename newName e) :=
  h'.entryAt?_address (hentries.mem_iff.2 (List.mem_map_of_mem he))

/-- At all addresses but two there is what has become of what was there. -/
theorem WellFormed.entryAt?_of_ne (h : r.WellFormed) (h' : r'.WellFormed)
    (hentries : r'.entries.Perm (r.entries.map (o.afterRename newName))) {a : Address}
    (hold : a ≠ o.address) (hnew : a ≠ { o.address with option := newName }) :
    r'.entryAt? a = (r.entryAt? a).map (o.afterRename newName) := by
  cases hbefore : r.entryAt? a with
  | some e =>
    obtain ⟨he, haddress⟩ := h.mem_of_entryAt? hbefore
    have hne : e.address ≠ o.address := haddress ▸ hold
    have hfound := h'.entryAt?_afterRename hentries he
    rw [Entry.address_afterRename_of_ne hne, haddress] at hfound
    exact hfound
  | none =>
    -- Whatever is there afterwards would have been there before.
    refine Option.eq_none_iff_forall_ne_some.2 fun e' hafter => ?_
    obtain ⟨hmem, haddress⟩ := h'.mem_of_entryAt? hafter
    obtain ⟨e, he, rfl⟩ := List.mem_map.1 (hentries.mem_iff.1 hmem)
    by_cases heq : e.address = o.address
    · have hname : (o.afterRename newName e).address = { o.address with option := newName } := by
        unfold Entry.afterRename
        rw [if_pos heq, ← heq]
        rfl
      exact hnew (haddress.symm.trans hname)
    · rw [Entry.address_afterRename_of_ne heq] at haddress
      have hfound := h.entryAt?_address he
      rw [haddress, hbefore] at hfound
      cases hfound

/-- Nothing is left at the old address. -/
theorem WellFormed.entryAt?_old (h' : r'.WellFormed)
    (hentries : r'.entries.Perm (r.entries.map (o.afterRename newName))) (hne : newName ≠ o.name) :
    r'.entryAt? o.address = none := by
  refine Option.eq_none_iff_forall_ne_some.2 fun e' hafter => ?_
  obtain ⟨hmem, haddress⟩ := h'.mem_of_entryAt? hafter
  obtain ⟨e, he, rfl⟩ := List.mem_map.1 (hentries.mem_iff.1 hmem)
  -- Only the renamed option had this address, and it has another name by now.
  by_cases heq : e.address = o.address
  · have hname : (o.afterRename newName e).address.option = newName := by
      unfold Entry.afterRename
      rw [if_pos heq]
      rfl
    rw [haddress] at hname
    exact hne hname.symm
  · exact heq ((Entry.address_afterRename_of_ne heq newName).symm.trans haddress)

/-- All paths but two lead to what has become of what they led to. -/
theorem WellFormed.entry?_of_ne (h : r.WellFormed) (h' : r'.WellFormed)
    (hentries : r'.entries.Perm (r.entries.map (o.afterRename newName))) {path : String}
    (hold : path ≠ o.fullName) (hnew : path ≠ { o with name := newName : Entry }.fullName) :
    r'.entry? path = (r.entry? path).map (o.afterRename newName) := by
  unfold entry?
  cases hofPath : Address.ofPath? path with
  | none => rfl
  | some a =>
    -- Different paths come of different addresses.
    have hpath : a.path = path := (Address.path_of_ofPath? hofPath).1
    have holda : a ≠ o.address := by
      rintro rfl
      exact hold hpath.symm
    have hnewa : a ≠ { o.address with option := newName } := by
      rintro rfl
      exact hnew hpath.symm
    exact h.entryAt?_of_ne h' hentries holda hnewa

/-! ## Inheritance -/

/-- The parent of an option is what the same parent has become, unless the new path was the parent's
before. -/
theorem WellFormed.parentByPath?_afterRename (h : r.WellFormed) (hdots : r.Dotless)
    (h' : r'.WellFormed) (hdots' : r'.Dotless)
    (hentries : r'.entries.Perm (r.entries.map (o.afterRename newName))) (ho : o ∈ r.entries)
    {e : Entry} (he : e.parent ≠ some { o with name := newName : Entry }.fullName) :
    r'.parentByPath? (o.afterRename newName e) =
      (r.parentByPath? e).map (o.afterRename newName) := by
  unfold parentByPath?
  rw [Entry.parent_afterRename]
  cases hparent : e.parent with
  | none =>
    rw [if_neg (Option.some_ne_none _).symm]
    rfl
  | some path =>
    by_cases hold : path = o.fullName
    · -- The child of the renamed option goes with it.
      have hafter := h'.entry?_fullName hdots' (hentries.mem_iff.2 (List.mem_map_of_mem ho))
      rw [Entry.fullName_afterRename_self] at hafter
      rw [if_pos (congrArg some hold), hold]
      show r'.entry? _ = (r.entry? _).map _
      rw [h.entry?_fullName hdots ho, hafter]
      rfl
    · rw [if_neg fun heq => hold (Option.some.inj heq)]
      exact h.entry?_of_ne h' hentries hold fun heq => he (hparent.trans (congrArg some heq))

/-- What an option inherits does not depend on the name of the option that it inherits from. -/
theorem WellFormed.inherited_afterRename (h : r.WellFormed) (hdots : r.Dotless)
    (h' : r'.WellFormed) (hdots' : r'.Dotless)
    (hentries : r'.entries.Perm (r.entries.map (o.afterRename newName))) {e : Entry}
    (he : e ∈ r.entries)
    (hparent : r'.parentByPath? (o.afterRename newName e) =
      (r.parentByPath? e).map (o.afterRename newName))
    {α : Type} {f : Entry → Option Value → α} (hf : ∀ e v, f (o.afterRename newName e) v = f e v) :
    (r'.inherited (o.afterRename newName e).address f).result.2 =
      (r.inherited e.address f).result.2 := by
  have hmem : o.afterRename newName e ∈ r'.entries :=
    hentries.mem_iff.2 (List.mem_map_of_mem he)
  rw [h'.inherited_result hdots' hmem f, h.inherited_result hdots he f, hparent,
    source_map (g := o.afterRename newName) (fun _ => rfl) (fun _ => rfl), hf]

/-! ## The rename -/

/-- The names of files and sections stay. -/
theorem Dotless.afterRename (h : r.Dotless) {d : Document} {s : Section} {a : Address}
    (hd : d ∈ r.documents) (hs : s ∈ d.sections) :
    (r.afterRename d s o a newName).Dotless := by
  have hput (entries : List Entry) : (r.putEntries d s entries).Dotless := by
    intro c hc
    rcases Roster.mem_of_mem_replace hc with rfl | hc
    · refine ⟨(h d hd).1, fun t ht => ?_⟩
      rcases Roster.mem_of_mem_replace ht with rfl | ht
      · exact (h d hd).2 s hs
      · exact (h d hd).2 t ht
    · exact h c hc
  unfold Registry.afterRename
  exact dotless_mapEntries_iff.2 (hput _)

/-- An option inherits in one registry what another option inherits in another registry, in
whichever way it is read. -/
structure InheritsAlike (r r' : Registry) (a a' : Address) : Prop where
  value : (r'.inheritedValue a').result.2 = (r.inheritedValue a).result.2
  boolean : (r'.inheritedBoolean a').result.2 = (r.inheritedBoolean a).result.2
  integer : (r'.inheritedInteger a').result.2 = (r.inheritedInteger a).result.2
  string : (r'.inheritedString a').result.2 = (r.inheritedString a).result.2
  color : (r'.inheritedColor a').result.2 = (r.inheritedColor a).result.2
  enum : (r'.inheritedEnum a').result.2 = (r.inheritedEnum a).result.2

/-- What a registry is after the option `o` was given another name. -/
structure Renamed (r : Registry) (o : Entry) (newName : String) (r' : Registry) : Prop where
  /-- The option is found under its new name with all that it had; if it was its own parent, it
  still is. -/
  renamed : r'.entryAt? { o.address with option := newName } = some { o with
    name := newName
    parent := if o.parent = some o.fullName then some { o with name := newName : Entry }.fullName
      else o.parent
    knownParent := none }
  /-- Nothing is found under its old name. -/
  gone : r'.entryAt? o.address = none
  /-- Every other option is found where it was, and only a parent of the old path is another one. -/
  others : ∀ e ∈ r.entries, e.address ≠ o.address → r'.entryAt? e.address = some { e with
    parent := if e.parent = some o.fullName then some { o with name := newName : Entry }.fullName
      else e.parent
    knownParent := none }
  /-- There are no other options, and each one is there once. -/
  entries : r'.entries.Perm (r.entries.map (o.afterRename newName))
  /-- All rosters are in order, that of the option's section included. -/
  inOrder : r'.InOrder
  /-- What had another parent than the new path inherits what it inherited. -/
  inherited : ∀ e ∈ r.entries, e.parent ≠ some { o with name := newName : Entry }.fullName →
    InheritsAlike r r' e.address (o.afterRename newName e).address

/-- A registry that has the options that a rename leaves, in order and with no dots in the names of
files and sections, is what the rename makes of the first one. -/
theorem WellFormed.renamed (h : r.WellFormed) (hdots : r.Dotless) (h' : r'.WellFormed)
    (hdots' : r'.Dotless)
    (hentries : r'.entries.Perm (r.entries.map (o.afterRename newName))) (ho : o ∈ r.entries)
    (hne : newName ≠ o.name) : r.Renamed o newName r' where
  renamed := by
    have hfound := h'.entryAt?_afterRename hentries ho
    rw [Entry.address_afterRename_self] at hfound
    rw [hfound]
    unfold Entry.afterRename
    rw [if_pos rfl]
  gone := h'.entryAt?_old hentries hne
  others := by
    intro e he hother
    have hfound := h'.entryAt?_afterRename hentries he
    rw [Entry.address_afterRename_of_ne hother] at hfound
    rw [hfound]
    unfold Entry.afterRename
    rw [if_neg hother]
  entries := hentries
  inOrder := h'.inOrder
  inherited := by
    intro e he hparent
    have hsame := h.parentByPath?_afterRename hdots h' hdots' hentries ho hparent
    -- A reading asks an option for its value and its kind, which a rename leaves alone.
    have hreads {α : Type} {f : Entry → Option Value → α}
        (hf : ∀ e v, f (o.afterRename newName e) v = f e v) :
        (r'.inherited (o.afterRename newName e).address f).result.2 =
          (r.inherited e.address f).result.2 :=
      h.inherited_afterRename hdots h' hdots' hentries he hsame hf
    exact {
      value := hreads fun _ _ => rfl
      boolean := hreads fun _ _ => rfl
      integer := hreads fun _ _ => rfl
      string := hreads fun _ _ => rfl
      color := hreads fun _ _ => rfl
      enum := hreads fun _ _ => rfl }

/-- A rename that takes place has found the option of the path under the option's own address, and
the new name free. It tells of what is then found under the new name, and of nothing else. -/
theorem WellFormed.found_of_renameOption (hwell : r.WellFormed) {path : String}
    (ho : r.entry? path = some o) (h : (r.renameOption path newName).result = (r', .ok true)) :
    path = o.fullName ∧ o ∈ r.entries ∧ newName ≠ o.name ∧
      (∃ d s, r.document? o.address.file = some d ∧ d.section? o.address.sectionName = some s ∧
        s.entry? o.address.option = some o ∧ r' = r.afterRename d s o o.address newName) ∧
      (r.renameOption path newName).events.filter Event.isNotification =
        ((r'.entryAt? { o.address with option := newName }).map Entry.notification).toList := by
  rcases renameOption_spec r path newName with
    ⟨-, hrefused, -⟩ | ⟨a, d, s, e, hpath, hd, hs, he, -, hfree, hresult, hevents⟩
  · exact absurd (congrArg Prod.snd h) hrefused
  · have hat : r.entryAt? a = some e := entryAt?_eq_some_iff.2 ⟨d, s, hd, hs, he⟩
    have hentry : r.entry? path = some e := by
      unfold entry?
      rw [hpath]
      exact hat
    obtain rfl := Option.some.inj (ho.symm.trans hentry)
    obtain ⟨hmem, haddress⟩ := hwell.mem_of_entryAt? hat
    subst haddress
    have hr' : r' = r.afterRename d s o o.address newName :=
      congrArg Prod.fst (h.symm.trans hresult)
    have hne : newName ≠ o.name := by
      rintro rfl
      have hname : s.entry? o.name = some o := he
      rw [hfree] at hname
      cases hname
    refine ⟨(Address.path_of_ofPath? hpath).1.symm, hmem, hne, ⟨d, s, hd, hs, he, hr'⟩, ?_⟩
    rw [hevents, ← hr']
    cases r'.entryAt? { o.address with option := newName } with
    | none => rfl
    | some e' => rfl

/-- In a registry that a host can bring about and in which no file or section name holds a dot, a
rename of an option that takes place gives it its new name, keeps all the rest as `Registry.Renamed`
says, and publishes the option's value under its new path and nothing else. -/
theorem renamed_of_renameOption (hr : r.Reachable) (hdots : r.Dotless) {path : String}
    (ho : r.entry? path = some o) (h : (r.renameOption path newName).result = (r', .ok true)) :
    path = o.fullName ∧ r.Renamed o newName r' ∧
      (r.renameOption path newName).events.filter Event.isNotification =
        [.notified { o with name := newName : Entry }.fullName o.valueText] := by
  have hwell := hr.wellFormed
  have hwell' : r'.WellFormed := by
    have hevolves := (Evolves.rename r path newName).wellFormed hwell
    rw [h] at hevolves
    exact hevolves
  obtain ⟨hpath, hmem, hne, ⟨d, s, hd, hs, he, hr'⟩, hevents⟩ := hwell.found_of_renameOption ho h
  have hdots' : r'.Dotless := by
    rw [hr']
    exact hdots.afterRename (Roster.mem_of_find?_eq_some hd) (Roster.mem_of_find?_eq_some hs)
  have hentries : r'.entries.Perm (r.entries.map (o.afterRename newName)) := by
    rw [hr']
    exact hwell.perm_entries_afterRename hd hs he
  have hrenamed := hwell.renamed hdots hwell' hdots' hentries hmem hne
  refine ⟨hpath, hrenamed, ?_⟩
  rw [hevents, hrenamed.renamed]
  rfl

/-- A run that makes an option which is its own parent, another that inherits from it, and a third
one whose parent is not there. -/
def inheriting : List Operation :=
  [.addFile "app", .addSection "app" { name := "look" },
    .edit "app" "look"
      (.define { name := "server.name << app.look.server.name", kind := .string,
                 default := some "libera", nullable := true } fun _ =>
        .define { name := "alias << app.look.server.name", kind := .string, nullable := true }
          fun _ => .define { name := "stray << app.look.server.label", kind := .string,
                             nullable := true } fun _ => .finish (.ok ()))]

/-- What `inheriting` leads to. -/
def heirs : Registry :=
  (run inheriting { env := { dir := "/etc" } } {}).result.1

/-- Both that had the old path as their parent have the new one, and they inherit as before. -/
theorem renamed_of_renameOption_heirs :
    ∃ r', (heirs.renameOption "app.look.server.name" "server.label").result = (r', .ok true) ∧
      (r'.entryAt? ⟨"app", "look", "server.label"⟩).map (fun e => (e.name, e.parent)) =
        some ("server.label", some "app.look.server.label") ∧
      (r'.inheritedString ⟨"app", "look", "alias"⟩).result.2 = some (some "libera") ∧
      (heirs.renameOption "app.look.server.name" "server.label").events.filter
        Event.isNotification = [.notified "app.look.server.label" none] := by
  have hreachable : heirs.Reachable := by
    unfold heirs
    exact ⟨{ dir := "/etc" }, inheriting, {}, rfl⟩
  have hdots : heirs.Dotless := by
    unfold Dotless
    decide +kernel
  obtain ⟨o, ho, haddress, hparent, hvalue⟩ : ∃ o,
      heirs.entry? "app.look.server.name" = some o ∧
        o.address = ⟨"app", "look", "server.name"⟩ ∧ o.parent = some "app.look.server.name" ∧
        o.valueText = none := ⟨_, rfl, by decide +kernel, by decide +kernel, by decide +kernel⟩
  obtain ⟨e, he, halias, hchild⟩ : ∃ e ∈ heirs.entries, e.address = ⟨"app", "look", "alias"⟩ ∧
      e.parent = some "app.look.server.name" := by decide +kernel
  obtain ⟨r', hresult⟩ : ∃ r', (heirs.renameOption "app.look.server.name" "server.label").result =
      (r', .ok true) := exists_of_renameOption (by decide +kernel)
  obtain ⟨hpath, hrenamed, hevents⟩ := renamed_of_renameOption hreachable hdots ho hresult
  have hnew : ({ o with name := "server.label" } : Entry).fullName = "app.look.server.label" := by
    show Address.path { o.address with option := "server.label" } = _
    rw [haddress]
    rfl
  have hother : e.address ≠ o.address := by
    rw [halias, haddress]
    decide
  refine ⟨r', hresult, ?_, ?_, ?_⟩
  · have hfound := hrenamed.renamed
    rw [haddress, hnew, hparent, ← hpath, if_pos rfl] at hfound
    rw [hfound]
    rfl
  · have halike := hrenamed.inherited e he (by rw [hchild, hnew]; decide)
    rw [Entry.address_afterRename_of_ne hother, halias] at halike
    rw [halike.string]
    decide +kernel
  · rw [hevents, hnew, hvalue]

end Registry

end TypedConfig
