import TypedConfig.Proofs.Notifications.Registry

/-!
# Listeners and runs

A listener that sees only notifications is right about the registry after every run
(`Registry.mirrored_run`): the last notification for the path of an option carries its value, and
the last one for a path without an option carries null. The one exception is by design. A rename
publishes the option under its new path and says nothing about the old one, so the paths that
renames leave behind are kept apart (`Registry.vacated`).

One operation keeps a listener right about all paths but those that it vacates
(`Operation.tells_perform`); the run follows by induction on the operations.
-/

namespace TypedConfig

namespace Registry

/-- A listener is right about a registry, some paths apart that were vacated. -/
structure Mirrored (r : Registry) (es : List Event) (vacated : List String) : Prop where
  /-- The last notification for an option carries its value. -/
  present : ∀ e ∈ r.entries, lastNotified? e.fullName es = some e.valueText
  /-- The last notification for a path that is no option's carries null. -/
  gone : ∀ path value, lastNotified? path es = some value → (∀ e ∈ r.entries, e.fullName ≠ path) →
    path ∉ vacated → value = none

end Registry

/-- The path that an operation vacates: the old one of an option that it gives another name. -/
def Operation.vacates (r : Registry) : Operation → List String
  | .renameOption path newName =>
    if (r.renameOption path newName).result.2.toOption = some true then [path] else []
  | _ => []

/-- The paths that the renames of a run vacate and that no option takes again, together with those
that were vacant already. -/
def Registry.vacated : List Operation → Registry → Disk → List String → List String
  | [], _, _, paths => paths
  | op :: ops, r, disk, paths =>
    let (s, disk) := (op.perform r disk).result
    vacated ops s disk
      ((op.vacates r ++ paths).filter fun path => s.entries.all fun e => e.fullName ≠ path)

/-! ## Renames -/

namespace Registry

variable {r r' : Registry} {o : Entry} {path newName : String}

/-- In a registry whose paths lead back to its options, no two options share one. -/
theorem Legible.eq_of_fullName_eq (h : r.Legible) {e f : Entry} (he : e ∈ r.entries)
    (hf : f ∈ r.entries) (hname : e.fullName = f.fullName) : e = f := by
  have hfound := h.wellFormed.entry?_fullName h.dotless he
  rw [hname, h.wellFormed.entry?_fullName h.dotless hf] at hfound
  exact (Option.some.inj hfound).symm

/-- Only the renamed option has another path. -/
theorem fullName_afterRename_of_ne {e : Entry} (h : e.address ≠ o.address) :
    (o.afterRename newName e).fullName = e.fullName :=
  congrArg Address.path (Entry.address_afterRename_of_ne h newName)

/-- What a rename is known to do, for those who see full names only. -/
structure Moved (r : Registry) (o : Entry) (newName : String) (r' : Registry)
    (es : List Event) : Prop where
  mem : o ∈ r.entries
  entries : r'.entries.Perm (r.entries.map (o.afterRename newName))
  /-- The option has a new path. -/
  ne : { o with name := newName : Entry }.fullName ≠ o.fullName
  /-- Its value is published under the new path, and nothing else is. -/
  notified : ∀ p, lastNotified? p es =
    if { o with name := newName : Entry }.fullName = p then some o.valueText else none

/-- A rename that takes place moves the option of the path. -/
theorem Legible.exists_moved (h : r.Legible)
    (hdone : (r.renameOption path newName).result.2.toOption = some true) :
    ∃ o, path = o.fullName ∧ r.Moved o newName (r.renameOption path newName).result.1
      (r.renameOption path newName).events := by
  obtain ⟨r', hresult⟩ := exists_of_renameOption hdone
  have h' : r'.Legible := by
    have hevolves : r.EvolvesIn Undotted True _ _ := .rename r path newName trivial
    rw [hresult] at hevolves
    exact hevolves.legible h
  rcases renameOption_spec r path newName with
    ⟨-, hrefused, -⟩ | ⟨a, d, s, o, hpath, hd, hs, ho, -⟩
  · rw [hresult] at hrefused
    exact absurd rfl hrefused
  have hfound : r.entry? path = some o := by
    unfold entry?
    rw [hpath]
    exact entryAt?_eq_some_iff.2 ⟨d, s, hd, hs, ho⟩
  obtain ⟨hname, hmem, hne, ⟨d, s, hd, hs, ho, hr'⟩, hevents⟩ :=
    h.wellFormed.found_of_renameOption hfound hresult
  have hentries : r'.entries.Perm (r.entries.map (o.afterRename newName)) := by
    rw [hr']
    exact h.wellFormed.perm_entries_afterRename hd hs ho
  have hrenamed := h.wellFormed.renamed h.dotless h'.wellFormed h'.dotless hentries hmem hne
  rw [hrenamed.renamed] at hevents
  refine ⟨o, hname, ?_⟩
  rw [hresult]
  refine ⟨hmem, hentries, fun hpaths => hne (Address.option_eq_of_path_eq hpaths), fun p => ?_⟩
  rw [← lastNotified?_filter, hevents]
  exact lastNotified?_singleton p _ o.valueText

/-- No option is left under the old path. -/
theorem Moved.ne_old {es : List Event} (h : r.Moved o newName r' es) (hr : r.Legible) :
    ∀ e ∈ r'.entries, e.fullName ≠ o.fullName := by
  intro e he hpath
  obtain ⟨e, hmem, rfl⟩ := List.mem_map.1 (h.entries.mem_iff.1 he)
  by_cases haddress : e.address = o.address
  · obtain rfl := hr.eq_of_fullName_eq hmem h.mem (congrArg Address.path haddress)
    rw [Entry.fullName_afterRename_self] at hpath
    exact h.ne hpath
  · rw [fullName_afterRename_of_ne haddress] at hpath
    exact haddress (congrArg (fun e : Entry => e.address) (hr.eq_of_fullName_eq hmem h.mem hpath))

/-- A rename keeps a listener right about all paths but the old one. -/
theorem Moved.tells {es : List Event} (h : r.Moved o newName r' es) (hr : r.Legible)
    (hr' : r'.Legible) {p : String} (hp : p ≠ o.fullName) : Tells p es r.entries r'.entries := by
  have hrenamed : o.afterRename newName o ∈ r'.entries :=
    h.entries.mem_iff.2 (List.mem_map_of_mem h.mem)
  have hnew := Entry.fullName_afterRename_self o newName
  by_cases hpath : { o with name := newName : Entry }.fullName = p
  · -- The new path is the one of which the rename tells.
    have htold : lastNotified? p es = some o.valueText := by rw [h.notified, if_pos hpath]
    constructor
    · intro value hvalue
      obtain rfl := Option.some.inj (htold.symm.trans hvalue)
      refine ⟨fun text ⟨e, he, hname, htext⟩ => ?_, fun hnothing => ?_⟩
      · -- The renamed option is the only one of the new path.
        obtain rfl := hr'.eq_of_fullName_eq he hrenamed (hname.trans (hnew.trans hpath).symm)
        exact htext.symm
      · exact absurd ⟨_, hrenamed, hnew.trans hpath, rfl⟩ (hnothing o.valueText)
    · intro hnone
      rw [htold] at hnone
      cases hnone
  · have hquiet : lastNotified? p es = none := by rw [h.notified, if_neg hpath]
    constructor
    · intro value hvalue
      rw [hquiet] at hvalue
      cases hvalue
    · -- At any other path the same options show as before.
      intro _ text
      constructor
      · rintro ⟨e, he, hname, htext⟩
        obtain ⟨e, hmem, rfl⟩ := List.mem_map.1 (h.entries.mem_iff.1 he)
        by_cases haddress : e.address = o.address
        · obtain rfl := hr.eq_of_fullName_eq hmem h.mem (congrArg Address.path haddress)
          exact absurd (hnew.symm.trans hname) hpath
        · rw [fullName_afterRename_of_ne haddress] at hname
          exact ⟨e, hmem, hname, htext⟩
      · rintro ⟨e, hmem, hname, htext⟩
        have haddress : e.address ≠ o.address :=
          fun heq => hp (hname.symm.trans (congrArg Address.path heq))
        exact ⟨o.afterRename newName e, h.entries.mem_iff.2 (List.mem_map_of_mem hmem),
          (fullName_afterRename_of_ne haddress).trans hname, htext⟩

end Registry

/-! ## Operations -/

namespace Operation

/-- What an operation does about the paths that it does not vacate, and about those that it does. -/
structure Tells (r : Registry) (op : Operation) (es : List Event) (r' : Registry) : Prop where
  others : ∀ path, path ∉ op.vacates r → TypedConfig.Tells path es r.entries r'.entries
  vacant : ∀ path ∈ op.vacates r, ∀ e ∈ r'.entries, e.fullName ≠ path

/-- A rename vacates the old path and keeps a listener right about all others. -/
theorem tells_renameOption {r : Registry} (hr : r.Legible) (path newName : String) :
    Tells r (.renameOption path newName) (r.renameOption path newName).events
      (r.renameOption path newName).result.1 := by
  by_cases hdone : (r.renameOption path newName).result.2.toOption = some true
  · have hvacates : vacates r (.renameOption path newName) = [path] := if_pos hdone
    have hevolves : r.EvolvesIn Undotted True _ _ := .rename r path newName trivial
    obtain ⟨o, rfl, hmoved⟩ := hr.exists_moved hdone
    refine ⟨fun p hp => hmoved.tells hr (hevolves.legible hr) ?_, fun p hp => ?_⟩
    · rw [hvacates] at hp
      exact fun heq => hp (List.mem_singleton.2 heq)
    · rw [hvacates] at hp
      rw [List.mem_singleton.1 hp]
      exact hmoved.ne_old hr
  · have hvacates : vacates r (.renameOption path newName) = [] := if_neg hdone
    obtain ⟨hsame, hnone⟩ := Registry.renameOption_of_not_done hdone
    rw [hsame, hnone]
    have hsilent : Reports (fun _ => True) [] r.entries r.entries :=
      .silent silent_nil (.refl _) fun _ _ => trivial
    refine ⟨fun p _ => hsilent.tells p, fun p hp => ?_⟩
    rw [hvacates] at hp
    cases hp

/-- An operation that is no rename keeps a listener right about all paths. -/
theorem tells_of_not_rename {op : Operation} (hop : op.Within Undotted False) {r : Registry}
    (hr : r.Legible) (disk : Disk) :
    Tells r op (op.perform r disk).events (op.perform r disk).result.1 := by
  have hvacates : op.vacates r = [] := by
    cases op with
    | renameOption path newName => exact hop.elim
    | _ => rfl
  have hreports := (Registry.EvolvesIn.perform hop hr.admits disk).reports hr
  refine ⟨fun path _ => hreports.tells path, fun path hpath => ?_⟩
  rw [hvacates] at hpath
  cases hpath

/-- An operation keeps a listener right about every path that it does not vacate, and leaves nothing
under those that it does. -/
theorem tells_perform {op : Operation} (hop : op.Within Undotted True) {r : Registry}
    (hr : r.Legible) (disk : Disk) :
    Tells r op (op.perform r disk).events (op.perform r disk).result.1 := by
  cases op with
  | renameOption path newName =>
    have hevents : (perform r disk (.renameOption path newName)).events =
        (r.renameOption path newName).events := List.append_nil _
    rw [hevents]
    exact tells_renameOption hr path newName
  | _ =>
    refine tells_of_not_rename ?_ hr disk
    exact hop

end Operation

/-! ## Runs -/

namespace Registry

/-- A listener that is right stays so over one operation. -/
theorem Mirrored.perform {r : Registry} {es : List Event} {paths : List String}
    (h : r.Mirrored es paths) {op : Operation} {fs : List Event} {r' : Registry}
    (hop : op.Tells r fs r') :
    r'.Mirrored (es ++ fs)
      ((op.vacates r ++ paths).filter fun path => r'.entries.all fun e => e.fullName ≠ path) where
  present := by
    intro e he
    have hpath : e.fullName ∉ op.vacates r := fun hmem => hop.vacant _ hmem e he rfl
    have htells := hop.others e.fullName hpath
    rw [lastNotified?_append]
    cases hlast : lastNotified? e.fullName fs with
    | some value =>
      rw [(htells.told value hlast).1 e.valueText ⟨e, he, rfl, rfl⟩]
      rfl
    | none =>
      -- Nobody spoke of the option, so it was there with the same value.
      obtain ⟨f, hf, hname, hvalue⟩ := (htells.untold hlast e.valueText).1 ⟨e, he, rfl, rfl⟩
      have hbefore := h.present f hf
      rw [hname, hvalue] at hbefore
      exact hbefore
  gone := by
    intro path value hvalue hnone hvacated
    have hvacant : (r'.entries.all fun e => e.fullName ≠ path) = true := by simpa using hnone
    simp only [List.mem_filter, hvacant, and_true, List.mem_append, not_or] at hvacated
    have htells := hop.others path hvacated.1
    have hnothing : ∀ text, ¬Shows r'.entries path text :=
      fun text ⟨e, he, hname, _⟩ => hnone e he hname
    rw [lastNotified?_append] at hvalue
    cases hlast : lastNotified? path fs with
    | some v =>
      rw [hlast] at hvalue
      obtain rfl := Option.some.inj hvalue
      exact (htells.told v hlast).2 hnothing
    | none =>
      rw [hlast] at hvalue
      refine h.gone path value hvalue (fun e he hname => ?_) hvacated.2
      exact hnothing e.valueText ((htells.untold hlast e.valueText).2 ⟨e, he, hname, rfl⟩)

/-- A listener that is right stays so over a run. -/
theorem Mirrored.run {ops : List Operation} (hops : ∀ op ∈ ops, op.Within Undotted True)
    {r : Registry} (hr : r.Legible) (disk : Disk) {es : List Event} {paths : List String}
    (h : r.Mirrored es paths) :
    (Registry.run ops r disk).result.1.Mirrored (es ++ (Registry.run ops r disk).events)
      (vacated ops r disk paths) := by
  induction ops generalizing r disk es paths with
  | nil =>
    rw [show (Registry.run [] r disk).events = [] from rfl, List.append_nil]
    exact h
  | cons op ops ih =>
    obtain ⟨hop, hops⟩ := List.forall_mem_cons.1 hops
    have hfirst := h.perform (Operation.tells_perform hop hr disk)
    have hr' := (EvolvesIn.perform hop hr.admits disk).legible hr
    have hrest := ih hops hr' (op.perform r disk).result.2 hfirst
    rw [List.append_assoc] at hrest
    exact hrest

/-- After every run from an empty registry in which no file and no section is given a name with a
dot, a listener that saw only the notifications is right about the registry. -/
theorem mirrored_run (env : Environment) {ops : List Operation}
    (hops : ∀ op ∈ ops, op.Within Undotted True) (disk : Disk) :
    (run ops { env } disk).result.1.Mirrored (run ops { env } disk).events
      (vacated ops { env } disk []) := by
  have hempty : Legible { env } := ⟨⟨.nil, nofun⟩, nofun⟩
  have hstart : Mirrored { env } [] [] :=
    ⟨fun _ he => absurd he List.not_mem_nil,
      fun _ _ hvalue => absurd hvalue (Option.some_ne_none _).symm⟩
  exact hstart.run hops hempty disk

/-- A run that makes two options, changes and renames the first, and removes the second. -/
def reshuffling : List Operation :=
  [.addFile "10|app", .addSection "app" { name := "look" },
    .edit "app" "look"
      (.define { name := "size", kind := .integer, hi := 9, default := some "3" } fun _ =>
        .define { name := "tint", kind := .string, default := some "red" } fun _ =>
          .finish (.ok ())),
    .mutate "app.look.size" (.set (some "5")), .renameOption "app.look.size" "width",
    .edit "app" "look" (.remove "tint" fun _ => .finish (.ok ()))]

/-- What `reshuffling` leads to, and all its events. -/
def reshuffled : Traced (Registry × Disk) :=
  run reshuffling { env := { dir := "/etc" } } {}

/-- A listener knows the value of the renamed option under its new path, and that the removed one is
gone. Only the old path, which the rename vacated, still has a value for it. -/
theorem mirrored_run_reshuffled :
    reshuffled.result.1.entries.map (fun e => (e.fullName, e.valueText)) =
        [("app.look.width", some "5")] ∧
      vacated reshuffling { env := { dir := "/etc" } } {} [] = ["app.look.size"] ∧
      lastNotified? "app.look.width" reshuffled.events = some (some "5") ∧
      lastNotified? "app.look.tint" reshuffled.events = some none ∧
      lastNotified? "app.look.size" reshuffled.events = some (some "5") := by
  have hops : ∀ op ∈ reshuffling, op.Within Undotted True := by
    have hfile : Undotted (Document.splitPriority "10|app").2 := by
      unfold Undotted
      decide +kernel
    have hsection : Undotted "look" := by
      unfold Undotted
      decide
    simp only [reshuffling, List.forall_mem_cons]
    exact ⟨hfile, hsection, trivial, trivial, trivial, trivial, List.forall_mem_nil _⟩
  have hmirrored := mirrored_run { dir := "/etc" } hops {}
  have hentries : reshuffled.result.1.entries.map (fun e => (e.fullName, e.valueText)) =
      [("app.look.width", some "5")] := by decide +kernel
  have hvacated : vacated reshuffling { env := { dir := "/etc" } } {} [] = ["app.look.size"] := by
    decide +kernel
  refine ⟨hentries, hvacated, ?_, ?_, by decide +kernel⟩
  · obtain ⟨e, he, heq⟩ := List.mem_map.1 (hentries ▸ List.mem_singleton.2 rfl)
    obtain ⟨hname, hvalue⟩ := Prod.mk.inj heq
    have hpresent := hmirrored.present e he
    rw [hname, hvalue] at hpresent
    exact hpresent
  · obtain ⟨value, hvalue⟩ :
        ∃ value, lastNotified? "app.look.tint" reshuffled.events = some value :=
      Option.isSome_iff_exists.1 (by decide +kernel)
    have hfree : ∀ e ∈ reshuffled.result.1.entries, e.fullName ≠ "app.look.tint" := by
      decide +kernel
    have hgone := hmirrored.gone _ value hvalue hfree (by rw [hvacated]; decide)
    rw [hvalue, hgone]

end Registry

end TypedConfig
