import TypedConfig.Proofs.Evolution.Document
import TypedConfig.Registry.Operation

/-!
# What operations do to registries

`Registry.EvolvesIn` lists the primitive changes of a registry. Every operation that a host may ask
for is a sequence of them (`Registry.EvolvesIn.perform`), and so is every run
(`Registry.EvolvesIn.run`). What holds of the empty registry and survives each primitive change
therefore holds of every registry that a host can bring about (`Registry.Reachable.evolves`).

Files and sections get names of one kind, and whether options are renamed is left open: an operation
stays within both (`Operation.Within`). Where neither matters the relation is `Registry.Evolves`.
-/

namespace TypedConfig

/-- The files have names of a kind, and so has all that is in them. -/
def Registry.Admits (names : String → Prop) (r : Registry) : Prop :=
  ∀ d ∈ r.documents, names d.name ∧ d.Admits names

/-- The operation gives files and sections names of a kind, and renames options only if `renames`
says so. -/
def Operation.Within (names : String → Prop) (renames : Prop) : Operation → Prop
  | .addFile name => names (Document.splitPriority name).2
  | .setReloading _ program => program.AddsOnly names
  | .addSection _ definition => names definition.name
  | .renameOption _ _ => renames
  | _ => True

/-- What becomes of a registry in which files and sections have names of a kind, and in which
options are renamed only if `renames` says so. -/
inductive Registry.EvolvesIn (names : String → Prop) (renames : Prop) :
    Registry → List Event → Registry → Prop
  | silent (r : Registry) {es : List Event} (h : Silent es) : EvolvesIn names renames r es r
  /-- The file of a name is changed. -/
  | inDocument (r : Registry) {name : String} {d d' : Document} {es : List Event}
      (hd : r.document? name = some d) (h : d.EvolvesIn names r.env.palette es d') :
      EvolvesIn names renames r es { r with documents := Roster.replace name d' r.documents }
  | addFile (r : Registry) (name : String) (h : names (Document.splitPriority name).2) :
      EvolvesIn names renames r [] (r.addFile name).1
  | removeFile (r : Registry) (name : String) :
      EvolvesIn names renames r (r.removeFile name).events (r.removeFile name).result.1
  | clear (r : Registry) : EvolvesIn names renames r r.clear.events r.clear.result
  | setSettings (r : Registry) (settings : Settings) :
      EvolvesIn names renames r [] (r.setSettings settings).1
  | rename (r : Registry) (path newName : String) (h : renames) :
      EvolvesIn names renames r (r.renameOption path newName).events
        (r.renameOption path newName).result.1
  | trans {r s t : Registry} {es fs : List Event} :
    EvolvesIn names renames r es s → EvolvesIn names renames s fs t →
      EvolvesIn names renames r (es ++ fs) t

/-- What becomes of a registry, whatever names there are. -/
abbrev Registry.Evolves (r : Registry) (es : List Event) (s : Registry) : Prop :=
  r.EvolvesIn (fun _ => True) True es s

/-- An option is renamed. -/
theorem Registry.Evolves.rename (r : Registry) (path newName : String) :
    r.Evolves (r.renameOption path newName).events (r.renameOption path newName).result.1 :=
  EvolvesIn.rename r path newName trivial

/-- Every operation gives names of the kind that all names have. -/
theorem Operation.within_true (op : Operation) : op.Within (fun _ => True) True := by
  cases op with
  | setReloading file program => exact program.addsOnly_true
  | _ => trivial

/-- Every registry has names of this kind. -/
theorem Registry.admits_true (r : Registry) : r.Admits fun _ => True :=
  fun d _ => ⟨trivial, d.admits_true⟩

/-- The registry in which a section of a file has other options. -/
def Registry.putEntries (r : Registry) (d : Document) (s : Section) (entries : List Entry) :
    Registry :=
  let sections := Roster.replace s.name { s with entries } d.sections
  { r with documents := Roster.replace d.name { d with sections } r.documents }

/-- The registry in which an option of a section has another name and those that inherit from it are
redirected. -/
def Registry.afterRename (r : Registry) (d : Document) (s : Section) (e : Entry) (a : Address)
    (newName : String) : Registry :=
  let entries := Roster.insert { e with name := newName } (Roster.erase a.option s.entries)
  (r.putEntries d s entries).mapEntries
    (redirect a.path { a with option := newName : Address }.path)

/-- A path leads to an option, and the new name is free in its section, and is one. -/
def Registry.CanRename (r : Registry) (path newName : String) : Prop :=
  ∃ a, Address.ofPath? path = some a ∧ (r.entryAt? a).isSome ∧ newName ≠ "" ∧
    r.entryAt? { a with option := newName } = none

/-- A rename is refused and does nothing, which is so where it cannot be made, or it moves an option
to a new name in its section, redirects those that inherit from it and publishes its value. -/
theorem Registry.renameOption_spec (r : Registry) (path newName : String) :
    ((r.renameOption path newName).result.1 = r ∧
        (r.renameOption path newName).result.2 ≠ .ok true ∧
        (r.renameOption path newName).events = [] ∧ ¬r.CanRename path newName) ∨
      ∃ a d s e, Address.ofPath? path = some a ∧ r.document? a.file = some d ∧
        d.section? a.sectionName = some s ∧ s.entry? a.option = some e ∧
        newName ≠ "" ∧ s.entry? newName = none ∧
        (r.renameOption path newName).result = (r.afterRename d s e a newName, .ok true) ∧
        (r.renameOption path newName).events =
          (((r.afterRename d s e a newName).entryAt? { a with option := newName }).map
            Entry.notification).toList ++
          [.record .debug .engine ("Renamed option " ++ a.path ++ " to " ++
            { a with option := newName : Address }.path)] := by
  unfold renameOption
  split
  · next hnone =>
    refine .inl ⟨rfl, nofun, rfl, ?_⟩
    rintro ⟨a, hpath, hsome, -⟩
    exact Option.filter_eq_none_iff.1 hnone a hpath hsome
  · next a ha =>
    obtain ⟨hpath, hsome⟩ := Option.filter_eq_some_iff.1 ha
    obtain ⟨e, hentry⟩ := Option.isSome_iff_exists.1 hsome
    obtain ⟨d, s, hd, hs, he⟩ := entryAt?_eq_some_iff.1 hentry
    have hdname : d.name = a.file := Roster.name_of_find?_eq_some hd
    have hsname : s.name = a.sectionName := Roster.name_of_find?_eq_some hs
    -- All three levels are there, so the rename is decided by the new name alone.
    simp only [onSection, onDocument, hd, Document.onSection, hs, Section.onBody, Body.rename, he]
    by_cases htaken : newName = "" ∨ (s.entry? newName).isSome
    · left
      have hrefused : ¬r.CanRename path newName := by
        rintro ⟨b, hb, -, hne, hfree⟩
        obtain rfl := Option.some.inj (hpath.symm.trans hb)
        have hnew : s.entry? newName = none := by
          simpa only [entryAt?, section?, hd, hs, Option.bind_eq_bind, Option.bind_some] using hfree
        rw [hnew] at htaken
        rcases htaken with hempty | hfound
        · exact hne hempty
        · cases hfound
      simp [htaken, hrefused]
    · right
      obtain ⟨hne, hnew⟩ := not_or.1 htaken
      refine ⟨a, d, s, e, hpath, hd, hs, he, hne, by simpa using hnew, ?_, ?_⟩
      · simp [htaken, followRename, afterRename, putEntries, hdname, hsname]
      · simp [htaken, followRename, afterRename, putEntries, hdname, hsname, Traced.log]

/-- A rename that takes place has a registry to give. -/
theorem Registry.exists_of_renameOption {r : Registry} {path newName : String}
    (h : (r.renameOption path newName).result.2.toOption = some true) :
    ∃ r', (r.renameOption path newName).result = (r', .ok true) := by
  generalize (r.renameOption path newName).result = result at h ⊢
  obtain ⟨r', answer⟩ := result
  cases answer with
  | error failure => cases h
  | ok done => exact ⟨r', by rw [Option.some.inj h]⟩

/-- A refused rename does nothing and publishes nothing. -/
theorem Registry.renameOption_of_not_done {r : Registry} {path newName : String}
    (h : (r.renameOption path newName).result.2.toOption ≠ some true) :
    (r.renameOption path newName).result.1 = r ∧ (r.renameOption path newName).events = [] := by
  rcases r.renameOption_spec path newName with
    ⟨hsame, -, hnone, -⟩ | ⟨_, _, _, _, _, _, _, _, _, _, hresult, _⟩
  · exact ⟨hsame, hnone⟩
  · rw [hresult] at h
    exact absurd rfl h

/-- A rename does nothing, or leads to the registry with the other name. -/
theorem Registry.renameOption_cases (r : Registry) (path newName : String) :
    (r.renameOption path newName).result.1 = r ∨
      ∃ a d s e, Address.ofPath? path = some a ∧ r.document? a.file = some d ∧
        d.section? a.sectionName = some s ∧ s.entry? a.option = some e ∧
        newName ≠ "" ∧ s.entry? newName = none ∧
        (r.renameOption path newName).result.1 = r.afterRename d s e a newName := by
  rcases renameOption_spec r path newName with
    ⟨hsame, -⟩ | ⟨a, d, s, e, hpath, hd, hs, he, hne, hnew, hres, -⟩
  · exact .inl hsame
  · exact .inr ⟨a, d, s, e, hpath, hd, hs, he, hne, hnew, congrArg Prod.fst hres⟩

namespace Registry

variable {names : String → Prop} {renames : Prop}

/-- The names of files and sections are not touched by a rename of an option. -/
theorem Admits.afterRename {r : Registry} (h : r.Admits names) {d : Document} {s : Section}
    (hd : d ∈ r.documents) (hs : s ∈ d.sections) (e : Entry) (a : Address) (newName : String) :
    (r.afterRename d s e a newName).Admits names := by
  have hput (entries : List Entry) : (r.putEntries d s entries).Admits names := by
    intro c hc
    rcases Roster.mem_of_mem_replace hc with rfl | hc
    · refine ⟨(h d hd).1, fun t ht => ?_, (h d hd).2.reloading⟩
      rcases Roster.mem_of_mem_replace ht with rfl | ht
      · exact (h d hd).2.sections s hs
      · exact (h d hd).2.sections t ht
    · exact h c hc
  intro c hc
  obtain ⟨c, hmem, rfl⟩ := List.mem_map.1 hc
  have hadmits := hput _ c hmem
  refine ⟨hadmits.1, fun t ht => ?_, hadmits.2.reloading⟩
  obtain ⟨t, hmem, rfl⟩ := List.mem_map.1 ht
  exact hadmits.2.sections t hmem

end Registry

namespace Registry.EvolvesIn

variable {names : String → Prop} {renames : Prop}

/-- A registry stays as it is. -/
theorem refl (r : Registry) : r.EvolvesIn names renames [] r :=
  .silent r silent_nil

/-- An operation that publishes nothing may come before. -/
theorem afterSilent {r s : Registry} {es fs : List Event} (h : Silent es)
    (h' : r.EvolvesIn names renames fs s) : r.EvolvesIn names renames (es ++ fs) s :=
  trans (silent r h) h'

/-- The names of files and sections stay of their kind, and the programs that add them too. -/
theorem admits {r s : Registry} {es : List Event} (h : r.EvolvesIn names renames es s)
    (hr : r.Admits names) : s.Admits names := by
  induction h with
  | silent => exact hr
  | inDocument r hd h =>
    intro c hc
    rcases Roster.mem_of_mem_replace hc with rfl | hc
    · have hadmits := hr _ (Roster.mem_of_find?_eq_some hd)
      rw [h.name_eq]
      exact ⟨hadmits.1, h.admits hadmits.2⟩
    · exact hr c hc
  | addFile r name hname =>
    unfold Registry.addFile
    dsimp only
    split
    · exact hr
    · split
      · exact hr
      · next d hd =>
        obtain rfl := Document.eq_of_ofName? hd
        intro c hc
        rcases Roster.mem_insert.1 hc with rfl | hc
        · exact ⟨hname, nofun, nofun⟩
        · exact hr c hc
  | removeFile r name =>
    unfold Registry.removeFile
    split
    · exact hr
    · exact fun d hd => hr d ((Roster.erase_sublist name r.documents).subset hd)
  | clear r => exact nofun
  | setSettings r settings =>
    unfold Registry.setSettings
    split <;> exact hr
  | rename r path newName =>
    rcases renameOption_cases r path newName with hsame | ⟨a, d, s, e, _, hd, hs, _, _, _, hres⟩
    · rw [hsame]
      exact hr
    · rw [hres]
      exact hr.afterRename (Roster.mem_of_find?_eq_some hd) (Roster.mem_of_find?_eq_some hs) e a _
  | trans _ _ ih ih' => exact ih' (ih hr)

/-! ## One file -/

/-- Something becomes of the file of a name, if there is one. -/
theorem onDocument {α : Type} (r : Registry) (name : String) (f : Document → Traced (Document × α))
    (h : ∀ d : Document, d.EvolvesIn names r.env.palette (f d).events (f d).result.1) :
    r.EvolvesIn names renames (r.onDocument name f).events (r.onDocument name f).result.1 := by
  unfold Registry.onDocument
  split
  · exact refl r
  · next d hd => exact trans (inDocument r hd (h d)) (refl _)

/-- Something becomes of the section of a name, if there is one. -/
theorem onSection {α : Type} (r : Registry) (file sectionName : String)
    (f : Section → Traced (Section × α))
    (h : ∀ s : Section, s.Evolves (f s).events (f s).result.1) :
    r.EvolvesIn names renames (r.onSection file sectionName f).events
      (r.onSection file sectionName f).result.1 :=
  trans (onDocument r file _ fun d => .onSection d sectionName f h) (refl _)

/-- The option at a path is changed. -/
theorem mutate (r : Registry) (path : String) (m : Mutation) :
    r.EvolvesIn names renames (r.mutate path m).events (r.mutate path m).result.1 := by
  unfold Registry.mutate
  split
  · exact refl r
  · exact trans (onSection r _ _ _ fun s => .ofBody s _ (.mutate _ _ m)) (refl _)

/-- The option at a path is set, and made if it is missing and there is a hook for that. -/
theorem setOption (r : Registry) (path : String) (value : Option String) :
    r.EvolvesIn names renames (r.setOption path value).events
      (r.setOption path value).result.1 := by
  unfold Registry.setOption
  split
  · exact refl r
  · next a _ =>
    refine trans (onSection r a.file a.sectionName _ fun s => ?_) (refl _)
    split
    · exact (Section.Evolves.ofBody s _ (.mutate _ a.option (.set value))).trans (.refl _)
    · exact (Section.Evolves.create s a.option value).trans (.refl _)

/-- The own value of the option at a path is taken away. -/
theorem unsetOption (r : Registry) (path : String) :
    r.EvolvesIn names renames (r.unsetOption path).events (r.unsetOption path).result.1 := by
  unfold Registry.unsetOption
  split
  · exact refl r
  · exact trans (onSection r _ _ _ fun s => .unset s _) (refl _)

/-- Something becomes of the file of a name, and of the disk. -/
theorem withFile {α : Type} (r : Registry) (disk : Disk) (name : String)
    (f : Document → Traced (OnDisk Document (Except Failure α)))
    (h : ∀ d ∈ r.documents, d.EvolvesIn names r.env.palette (f d).events (f d).result.1) :
    r.EvolvesIn names renames (r.withFile disk name f).events
      (r.withFile disk name f).result.1 := by
  unfold Registry.withFile
  split
  · exact refl r
  · next d hd => exact trans (inDocument r hd (h d (Roster.mem_of_find?_eq_some hd))) (refl _)

/-- The file of a name is reloaded. -/
theorem reload {r : Registry} (hr : r.Admits names) (disk : Disk) (name : String) :
    r.EvolvesIn names renames (r.reload disk name).events (r.reload disk name).result.1 :=
  withFile r disk name _ fun d hd => .renew d (hr d hd).2 r.env disk

/-- The file of a name is written. -/
theorem write (r : Registry) (disk : Disk) (name : String) :
    r.EvolvesIn names renames (r.write disk name).events (r.write disk name).result.1 :=
  withFile r disk name _ fun d _ => .save d r.env disk false

/-! ## Inheritance -/

/-- The place of a parent is kept without an event. -/
theorem events_keepParent (r : Registry) (a : Address) (location : Option Location) :
    (r.onSection a.file a.sectionName fun s => s.onBody fun b =>
      b.change a.option fun e => pure ({ e with knownParent := location }, ())).events = [] := by
  simp only [Registry.onSection, Registry.onDocument, Document.onSection, Section.onBody,
    Body.change]
  split
  · rfl
  · split
    · rfl
    · split <;> rfl

/-- An option keeps the place of its parent. -/
theorem keepParent (r : Registry) (a : Address) (location : Option Location) :
    r.EvolvesIn names renames [] (r.keepParent a location) := by
  -- The options of the section are changed by a function that notes a place and says nothing.
  have h : r.EvolvesIn names renames _ _ := onSection r a.file a.sectionName
    (fun s => s.onBody fun b => b.change a.option fun e =>
      pure ({ e with knownParent := location }, ()))
    (fun s => .ofBody s _ (.ofChange _ a.option _ fun e =>
      .trans (.keepParent e location) (.refl _)))
  rw [events_keepParent] at h
  exact h

/-- The parent of an option is looked up. -/
theorem parentOf (r : Registry) (a : Address) :
    r.EvolvesIn names renames (r.parentOf a).events (r.parentOf a).result.1 := by
  unfold Registry.parentOf
  split
  · exact refl r
  · split
    · exact refl r
    · split
      · exact refl r
      · exact afterSilent (silent_singleton rfl) (keepParent r a _)

/-- A value is read with what it inherits. -/
theorem inherited {α : Type} (r : Registry) (a : Address) (f : Entry → Option Value → α) :
    r.EvolvesIn names renames (r.inherited a f).events (r.inherited a f).result.1 := by
  unfold Registry.inherited
  split
  · exact refl r
  · dsimp only
    split
    · exact refl r
    · exact trans (parentOf r a) (refl _)

/-! ## All files -/

/-- Something becomes of files, one after the other. -/
theorem eachFile {α : Type}
    (f : Registry → Disk → String → Traced (OnDisk Registry (Except Failure α)))
    (h : ∀ (r : Registry) (disk : Disk) (name : String), r.Admits names →
      r.EvolvesIn names renames (f r disk name).events (f r disk name).result.1)
    (files : List String) {r : Registry} (hr : r.Admits names) (disk : Disk) :
    r.EvolvesIn names renames (Registry.eachFile f r disk files).events
      (Registry.eachFile f r disk files).result.1 := by
  induction files generalizing r disk with
  | nil => exact refl r
  | cons file files ih =>
    have hfirst := h r disk file hr
    exact trans hfirst (trans (ih (hfirst.admits hr) _) (refl _))

/-- All files are read. -/
theorem readAll {r : Registry} (hr : r.Admits names) (disk : Disk) :
    r.EvolvesIn names renames (r.readAll disk).events (r.readAll disk).result.1 :=
  eachFile _ (fun r disk name _ => withFile r disk name _ fun d _ => .read d r.env disk) _ hr disk

/-- Files are reloaded, one after the other. -/
theorem reloadEach {r : Registry} (hr : r.Admits names) (disk : Disk) (files : List String) :
    r.EvolvesIn names renames (r.reloadEach disk files).events
      (r.reloadEach disk files).result.1 := by
  refine eachFile _ (fun r disk name hr => ?_) files hr disk
  simp only [Traced.events_bind, Traced.result_bind]
  refine trans (reload hr disk name) ?_
  split
  · exact refl _
  · exact afterSilent (silent_singleton rfl) (refl _)

/-- The files that look different on disk are reloaded. -/
theorem reloadModified {r : Registry} (hr : r.Admits names) (disk : Disk) :
    r.EvolvesIn names renames (r.reloadModified disk).events
      (r.reloadModified disk).result.1 := by
  unfold Registry.reloadModified
  dsimp only
  split
  · exact afterSilent (silent_singleton rfl) (reloadEach hr disk _)
  · exact reloadEach hr disk _

/-- All files are written. -/
theorem writeAll {r : Registry} (hr : r.Admits names) (disk : Disk) :
    r.EvolvesIn names renames (r.writeAll disk).events (r.writeAll disk).result.1 :=
  trans (eachFile _ (fun r disk name _ => write r disk name) _ hr disk) (refl _)

/-! ## Runs -/

/-- No operation does anything but primitive changes. -/
theorem perform {op : Operation} (hop : op.Within names renames) {r : Registry}
    (hr : r.Admits names) (disk : Disk) :
    r.EvolvesIn names renames (op.perform r disk).events (op.perform r disk).result.1 := by
  -- An operation is one of the registry, with or without the disk, whose answer is put away.
  have alone {α : Type} {x : Traced (Registry × α)}
      (h : r.EvolvesIn names renames x.events x.result.1) :
      r.EvolvesIn names renames (Operation.onRegistry disk x).events
        (Operation.onRegistry disk x).result.1 :=
    trans h (refl _)
  have both {α : Type} {x : Traced (OnDisk Registry α)}
      (h : r.EvolvesIn names renames x.events x.result.1) :
      r.EvolvesIn names renames (Operation.onBoth x).events (Operation.onBoth x).result.1 :=
    trans h (refl _)
  cases op with
  | setSettings settings => exact alone (setSettings r settings)
  | addFile name => exact alone (addFile r name hop)
  | removeFile name => exact alone (removeFile r name)
  | removeFiles => exact trans (clear r) (refl _)
  | setVersion file version => exact alone (onDocument r file _ fun d => .setVersion d version)
  | setMigration file migration =>
    exact alone (onDocument r file _ fun d => .note d d.versionRead d.stamp (some migration))
  | setReloading file program =>
    exact alone (onDocument r file _ fun d => .setReloading d program hop)
  | addSection file definition =>
    exact alone (onDocument r file _ fun d => .addSection d definition hop)
  | removeSection file name => exact alone (onDocument r file _ fun d => .removeSection d name)
  | edit file name script => exact alone (onSection r file name _ fun s => .script s script)
  | create file name option value =>
    exact alone (onSection r file name _ fun s => .create s option value)
  | unset file name option => exact alone (onSection r file name _ fun s => .unset s option)
  | mutate path mutation => exact alone (mutate r path mutation)
  | setOption path value => exact alone (setOption r path value)
  | unsetOption path => exact alone (unsetOption r path)
  | renameOption path newName => exact alone (rename r path newName hop)
  | parse file origin bytes =>
    refine both (withFile r disk file _ fun d _ => ?_)
    exact .trans (.parse d disk origin bytes) (.refl _)
  | read file => exact both (withFile r disk file _ fun d _ => .read d r.env disk)
  | reloadAsUsual file => exact both (withFile r disk file _ fun d _ => .reload d r.env disk)
  | reload file => exact both (reload hr disk file)
  | save file defaults => exact both (withFile r disk file _ fun d _ => .save d r.env disk defaults)
  | readAll => exact both (readAll hr disk)
  | reloadAll => exact both (reloadEach hr disk _)
  | reloadModified => exact both (reloadModified hr disk)
  | writeAll => exact both (writeAll hr disk)
  | parentOf address => exact alone (parentOf r address)
  | inherited address => exact alone (inherited r address _)
  | exchangeDisk disk => exact refl r

/-- No run does anything but primitive changes. -/
theorem run {ops : List Operation} (hops : ∀ op ∈ ops, op.Within names renames) {r : Registry}
    (hr : r.Admits names) (disk : Disk) :
    r.EvolvesIn names renames (Registry.run ops r disk).events
      (Registry.run ops r disk).result.1 := by
  induction ops generalizing r disk with
  | nil => exact refl r
  | cons op ops ih =>
    obtain ⟨hop, hops⟩ := List.forall_mem_cons.1 hops
    have hfirst := perform hop hr disk
    exact trans hfirst (ih hops (hfirst.admits hr) _)

/-- The directory and the colors stay what they were. -/
theorem env_eq {r s : Registry} {es : List Event} (h : r.EvolvesIn names renames es s) :
    s.env.palette = r.env.palette ∧ s.env.dir = r.env.dir := by
  induction h with
  | silent | inDocument | clear => exact ⟨rfl, rfl⟩
  | addFile r name =>
    unfold Registry.addFile
    dsimp only
    split
    · exact ⟨rfl, rfl⟩
    · split <;> exact ⟨rfl, rfl⟩
  | removeFile r name =>
    unfold Registry.removeFile
    split <;> exact ⟨rfl, rfl⟩
  | setSettings r settings =>
    unfold Registry.setSettings
    split <;> exact ⟨rfl, rfl⟩
  | rename r path newName =>
    rcases Registry.renameOption_cases r path newName with h | ⟨_, _, _, _, _, _, _, _, _, _, h⟩
    · rw [h]
      exact ⟨rfl, rfl⟩
    · rw [h]
      exact ⟨rfl, rfl⟩
  | trans _ _ ih ih' => exact ⟨ih'.1.trans ih.1, ih'.2.trans ih.2⟩

end Registry.EvolvesIn

/-- A registry that a host can bring about comes from an empty one by primitive changes. -/
theorem Registry.Reachable.evolves {r : Registry} (h : r.Reachable) :
    ∃ env es, Evolves { env } es r := by
  obtain ⟨env, ops, disk, rfl⟩ := h
  exact ⟨env, _, EvolvesIn.run (fun op _ => op.within_true) (admits_true _) disk⟩

end TypedConfig
