import TypedConfig.Document.Load
import TypedConfig.Proofs.Evolution

/-!
# What operations do to files

`Document.EvolvesIn` lists the primitive changes of a file as the engine holds it. Reading,
reloading and writing are sequences of them, and so is any reload of a host's own
(`Document.EvolvesIn.renew`).

New sections get names of one kind. What a file's reload adds is up to the host, so the kind is a
condition on its program (`Reloading.AddsOnly`), and a file that is asked to reload has to be of
that kind itself (`Document.Admits`). Every program adds names of the kind that all names have.
-/

namespace TypedConfig

/-- All sections that a program adds have names of a kind, whatever the program is answered, as long
as it sees no other names. -/
def Reloading.AddsOnly (names : String → Prop) : Reloading → Prop
  | .finish _ => True
  | .look next => ∀ sections, (∀ s ∈ sections, names s.name) → (next sections).AddsOnly names
  | .read next | .reload next => ∀ answer, (next answer).AddsOnly names
  | .save _ next => ∀ answer, (next answer).AddsOnly names
  | .parse _ next => ∀ report, (next report).AddsOnly names
  | .setVersion _ next => ∀ answer, (next answer).AddsOnly names
  | .setMigration _ next => next.AddsOnly names
  | .setReloading reloading next => reloading.AddsOnly names ∧ next.AddsOnly names
  | .addSection definition next => names definition.name ∧ ∀ answer, (next answer).AddsOnly names
  | .removeSection _ next => ∀ answer, (next answer).AddsOnly names
  | .edit _ _ next => ∀ answer, (next answer).AddsOnly names
  | .create _ _ _ next => ∀ answer, (next answer).AddsOnly names
  | .unset _ _ next => ∀ answer, (next answer).AddsOnly names

/-- The sections have names of a kind, and so have those that the host's reload adds. -/
structure Document.Admits (names : String → Prop) (d : Document) : Prop where
  sections : ∀ s ∈ d.sections, names s.name
  reloading : ∀ program ∈ d.reloading, program.AddsOnly names

/-- What becomes of a file that keeps its name, where new sections have names of a kind and take
their colors from the palette. -/
inductive Document.EvolvesIn (names : String → Prop) (palette : Palette) :
    Document → List Event → Document → Prop
  | silent (d : Document) {es : List Event} (h : Silent es) : EvolvesIn names palette d es d
  /-- The section of a name is changed. -/
  | inSection (d : Document) {name : String} {s s' : Section} {es : List Event}
      (hs : d.section? name = some s) (h : s.Evolves es s') :
      EvolvesIn names palette d es { d with sections := Roster.replace name s' d.sections }
  /-- All sections are changed, from the first to the last. -/
  | eachSection (d : Document) (f : Section → Traced Section)
      (h : ∀ s : Section, s.Evolves (f s).events (f s).result) :
      EvolvesIn names palette d (Traced.each f d.sections).events
        { d with sections := (Traced.each f d.sections).result }
  | addSection (d : Document) (s : SectionDefinition) (h : names s.name) :
      EvolvesIn names palette d [] (d.addSection palette s).1
  | removeSection (d : Document) (name : String) :
      EvolvesIn names palette d (d.removeSection name).events (d.removeSection name).result.1
  | setVersion (d : Document) (version : Nat) :
      EvolvesIn names palette d [] (d.setVersion version).1
  /-- What is noted of the file, or its migration, is exchanged. -/
  | note (d : Document) (versionRead : Nat) (stamp : Option Stamp) (migration : Option Migration) :
      EvolvesIn names palette d [] { d with versionRead, stamp, migration }
  /-- The host's reload is exchanged. -/
  | setReloading (d : Document) (program : Reloading) (h : program.AddsOnly names) :
      EvolvesIn names palette d [] { d with reloading := some program }
  | trans {c d e : Document} {es fs : List Event} :
    EvolvesIn names palette c es d → EvolvesIn names palette d fs e →
      EvolvesIn names palette c (es ++ fs) e

/-- All names are of the kind that all names have. -/
theorem Reloading.addsOnly_true (program : Reloading) : program.AddsOnly fun _ => True := by
  induction program with
  | finish => trivial
  | look next ih => exact fun sections _ => ih sections
  | setMigration migration next ih => exact ih
  | setReloading program next ih ih' => exact ⟨ih, ih'⟩
  | addSection definition next ih => exact ⟨trivial, ih⟩
  | _ => assumption

/-- Every file has names of the kind that all names have. -/
theorem Document.admits_true (d : Document) : d.Admits fun _ => True :=
  ⟨fun _ _ => trivial, fun program _ => program.addsOnly_true⟩

/-- An option without a mark is reset. -/
theorem Entry.Evolves.resetMissing (e : Entry) :
    e.Evolves e.resetMissing.events e.resetMissing.result := by
  unfold Entry.resetMissing
  split
  · exact .refl e
  · simp only [Traced.events_bind, Traced.result_bind]
    refine (Entry.Evolves.reset e).trans ?_
    split
    · exact .refl _
    · exact .silent _ (silent_singleton rfl)

/-- The options without marks are reset, unless a read hook took the lines. -/
theorem Section.Evolves.resetMissing (s : Section) :
    s.Evolves s.resetMissing.events s.resetMissing.result := by
  unfold Section.resetMissing
  split
  · exact .refl s
  · exact ⟨rfl, (Body.Evolves.each s.toBody _ Entry.Evolves.resetMissing).trans (.refl _)⟩

namespace Document

/-- Writing a file notes at most its stamp. -/
theorem save_document (d : Document) (env : Environment) (disk : Disk) (defaults : Bool) :
    ∃ stamp, (d.save env disk defaults).result.1 = { d with stamp } := by
  simp only [save, Traced.result_bind]
  split
  · exact ⟨d.stamp, rfl⟩
  · simp only [Traced.result_bind]
    split
    · exact ⟨d.stamp, rfl⟩
    · exact ⟨_, rfl⟩

/-- Making a file that is missing notes at most its stamp. -/
theorem bootstrap_document (d : Document) (env : Environment) (disk : Disk) :
    ∃ stamp, (d.bootstrap env disk).result.1 = { d with stamp } := by
  unfold bootstrap
  dsimp only
  split
  · exact ⟨d.stamp, rfl⟩
  · obtain ⟨stamp, hsave⟩ := save_document d env disk true
    refine ⟨stamp, ?_⟩
    simp only [Traced.result_bind]
    split
    · next h => rw [← hsave, h]; rfl
    · next h => rw [← hsave, h]; rfl

end Document

namespace Document.EvolvesIn

variable {names : String → Prop} {palette : Palette}

/-- A file stays as it is. -/
theorem refl (d : Document) : d.EvolvesIn names palette [] d :=
  .silent d silent_nil

/-- An operation that publishes nothing may come before. -/
theorem afterSilent {d e : Document} {es fs : List Event} (h : Silent es)
    (h' : d.EvolvesIn names palette fs e) : d.EvolvesIn names palette (es ++ fs) e :=
  trans (silent d h) h'

/-- The version that was read is noted. -/
theorem setVersionRead (d : Document) (versionRead : Nat) :
    d.EvolvesIn names palette [] { d with versionRead } :=
  note d versionRead d.stamp d.migration

/-- The stamp of the file is noted. -/
theorem setStamp (d : Document) (stamp : Option Stamp) :
    d.EvolvesIn names palette [] { d with stamp } :=
  note d d.versionRead stamp d.migration

/-- Something becomes of the section of a name, if there is one. -/
theorem onSection {α : Type} (d : Document) (name : String)
    (f : Section → Traced (Section × α))
    (h : ∀ s : Section, s.Evolves (f s).events (f s).result.1) :
    d.EvolvesIn names palette (d.onSection name f).events (d.onSection name f).result.1 := by
  unfold Document.onSection
  split
  · exact refl d
  · next s hs => exact trans (inSection d hs (h s)) (refl _)

/-! ## Taking in a text -/

/-- A migration publishes nothing. -/
theorem silent_migrationRun (m : Migration) (line : LineData) : Silent (m.run line).events := by
  have chain (steps : Migration.Chain) (line : LineData) :
      Silent (Migration.Chain.run steps line).events := by
    induction steps generalizing line with
    | nil => exact silent_nil
    | cons s ss ih =>
      unfold Migration.Chain.run
      split
      · exact ih line
      · refine Silent.append (silent_singleton rfl) ?_
        dsimp only
        split
        · exact Silent.append (silent_singleton rfl) silent_nil
        · exact ih _
  cases m with
  | single revise => exact Silent.append (silent_singleton rfl) silent_nil
  | chain steps => exact chain steps line

/-- A migration publishes nothing, and the state only notes that the user was told. -/
theorem migrate_spec (t : Intake) (origin : String) (line : LineData) :
    Silent (t.migrate origin line).events ∧
      ∃ announced, (t.migrate origin line).result.1 = { t with announced } := by
  unfold Intake.migrate
  split
  · exact ⟨silent_nil, t.announced, rfl⟩
  · have hwarn (text : String) : Silent [Event.warning text] := silent_singleton rfl
    have hrun (m : Migration) : Silent ((m.run line).events ++ []) :=
      (silent_migrationRun m line).append silent_nil
    -- The user is told only once, and there need not be a migration.
    cases ha : t.announced <;> cases hm : t.document.migration <;> simp only [hm]
    · exact ⟨(hwarn _).append silent_nil, true, rfl⟩
    · exact ⟨(hwarn _).append (hrun _), true, rfl⟩
    · exact ⟨silent_nil, true, rfl⟩
    · exact ⟨hrun _, true, rfl⟩

/-- A line is dropped. -/
theorem warn (t : Intake) (origin : String) (kind : WarningKind) (line reason : String) :
    t.document.EvolvesIn names palette (t.warn origin kind line reason).events
      (t.warn origin kind line reason).result.document :=
  afterSilent (silent_singleton rfl) (refl _)

/-- The text is rejected. -/
theorem reject (t : Intake) (failure : Failure) (reason : String) :
    t.document.EvolvesIn names palette (t.reject failure reason).events
      (t.reject failure reason).result.document :=
  afterSilent (silent_singleton rfl) (refl _)

/-- A header is taken in. -/
theorem openSection (t : Intake) (origin line name : String) :
    t.document.EvolvesIn names palette (t.openSection origin line name).events
      (t.openSection origin line name).result.document := by
  unfold Intake.openSection
  obtain ⟨hsilent, announced, hresult⟩ := migrate_spec t origin (t.lineData name none none)
  simp only [Traced.events_bind, Traced.result_bind, hresult]
  refine afterSilent hsilent ?_
  split
  · exact refl _
  · exact warn { t with announced, standing := .astray } origin _ _ _

/-- A version line is taken in. -/
theorem takeVersion (t : Intake) (origin line : String) (raw : Option String) :
    t.document.EvolvesIn names palette (t.takeVersion origin line raw).events
      (t.takeVersion origin line raw).result.document := by
  unfold Intake.takeVersion
  split
  · exact reject t _ _
  · next version _ =>
    have hversion : t.document.EvolvesIn names palette []
        { t.document with versionRead := version } := setVersionRead t.document version
    dsimp only
    split
    · exact hversion
    -- The version that is too new is noted all the same.
    · have hreject := hversion.trans
        (reject { t with document := { t.document with versionRead := version } }
          (.versionTooNew origin version t.document.version)
          (origin ++ ", version read (" ++ Numeral.ofNat version ++
            ") is newer than supported version (" ++ Numeral.ofNat t.document.version ++ ")"))
      rw [List.nil_append] at hreject
      exact hreject

/-- An option line is taken in. -/
theorem takeOption (t : Intake) (origin line sectionName name : String) (value : Option String) :
    t.document.EvolvesIn names palette (t.takeOption origin line sectionName name value).events
      (t.takeOption origin line sectionName name value).result.document := by
  unfold Intake.takeOption
  obtain ⟨hsilent, announced, hresult⟩ :=
    migrate_spec t origin (t.lineData sectionName (some name) value)
  simp only [Traced.events_bind, Traced.result_bind, hresult]
  refine afterSilent hsilent ?_
  split
  · exact refl _
  · simp only [Traced.events_bind, Traced.result_bind]
    refine trans (onSection _ sectionName _ fun s => .applyLine s _ _) ?_
    split
    · exact warn { t with announced, document := _ } origin _ _ _
    · exact afterSilent (silent_singleton rfl)
        (warn { t with announced, document := _ } origin _ _ _)
    · exact refl _

/-- A line is taken in. -/
theorem takeLine (t : Intake) (origin : String) (text : List Char) :
    t.document.EvolvesIn names palette (t.takeLine origin text).events
      (t.takeLine origin text).result.document := by
  unfold Intake.takeLine
  -- The line is counted first, which the file does not show.
  generalize hu : ({ t with linesRead := t.linesRead + 1 } : Intake) = u
  have hdocument : t.document = u.document := by rw [← hu]
  rw [hdocument]
  dsimp only
  split
  · exact refl _
  · exact warn u origin _ _ _
  · exact openSection u origin _ _
  · split
    · split
      · exact takeVersion u origin _ _
      · exact warn u origin _ _ _
    · exact afterSilent (silent_singleton rfl) (refl _)
    · exact takeOption u origin _ _ _ _

/-- Lines are taken in. -/
theorem takeLines (origin : String) (lines : List (List Char)) (t : Intake) :
    t.document.EvolvesIn names palette (Intake.takeLines origin lines t).events
      (Intake.takeLines origin lines t).result.document := by
  induction lines generalizing t with
  | nil => exact refl _
  | cons line lines ih =>
    simp only [Intake.takeLines, Traced.events_bind, Traced.result_bind]
    refine trans (takeLine t origin line) ?_
    split
    · exact refl _
    · exact ih _

/-- A text is taken in. -/
theorem takeIn (d : Document) (origin : String) (bytes : List UInt8) :
    d.EvolvesIn names palette (d.takeIn origin bytes).events
      (d.takeIn origin bytes).result.document :=
  trans (setVersionRead d 1) (takeLines origin _ { document := { d with versionRead := 1 } })

/-- A backup publishes nothing. -/
theorem silent_backup (disk : Disk) (path : String) : Silent (Backup.make disk path).events := by
  unfold Backup.make
  dsimp only
  split
  · exact Silent.append (silent_singleton rfl) (Silent.append (silent_singleton rfl) silent_nil)
  · exact Silent.append (silent_singleton rfl) silent_nil

/-- A text is taken in, and backed up if it is rejected. -/
theorem parse (d : Document) (disk : Disk) (origin : String) (bytes : List UInt8) :
    d.EvolvesIn names palette (d.parse disk origin bytes).events
      (d.parse disk origin bytes).result.1 := by
  simp only [Document.parse, Traced.events_bind, Traced.result_bind]
  refine trans (takeIn d origin bytes) ?_
  split
  · exact afterSilent (silent_backup disk origin) (refl _)
  · exact refl _

/-! ## Writing -/

/-- Hooks write without changing anything, and nothing is published meanwhile. -/
theorem silent_drafts (defaults : Bool) (ss : List Section) :
    Silent (Section.drafts defaults ss).events := by
  have one (s : Section) : Silent (s.draft defaults).events := by
    unfold Section.draft
    split
    · exact (silent_singleton rfl).append silent_nil
    · exact (silent_singleton rfl).append silent_nil
    · exact silent_nil
  -- The sections behind the first one that fails are not written.
  induction ss with
  | nil => exact silent_nil
  | cons s ss ih =>
    simp only [Section.drafts, Traced.events_bind]
    refine (one s).append ?_
    split
    · exact silent_nil
    · exact ih.append silent_nil

/-- Making the temporary file publishes nothing. -/
theorem silent_prepare (disk : Disk) (temporary : String) :
    Silent (Document.prepare disk temporary).events := by
  have hstale : Silent (Document.removeStale disk temporary).events := by
    unfold Document.removeStale
    split
    · exact (silent_singleton rfl).append silent_nil
    · exact silent_nil
  have hmake (disk : Disk) : Silent (Document.makeTemporary disk temporary).events := by
    unfold Document.makeTemporary
    split
    · exact silent_nil
    · exact (silent_singleton rfl).append silent_nil
  simp only [Document.prepare, Traced.events_bind]
  refine hstale.append ?_
  split
  · exact hmake _
  · exact silent_nil

/-- Filling the temporary file and moving it over the target publishes nothing. -/
theorem silent_complete (d : Document) (settings : Settings) (disk : Disk)
    (temporary target : String) (defaults : Bool) :
    Silent (d.complete settings disk temporary target defaults).events := by
  simp only [Document.complete, Document.draft, Traced.events_bind, Traced.result_bind,
    Traced.events_pure, List.append_nil]
  refine (silent_drafts defaults d.sections).append ?_
  split
  · exact silent_nil
  · split
    · exact silent_nil
    · split <;> exact silent_nil

/-- Preparing and completing the file publishes nothing. -/
theorem silent_replaceTarget (d : Document) (settings : Settings) (disk : Disk)
    (temporary target : String) (defaults : Bool) :
    Silent (d.replaceTarget settings disk temporary target defaults).events := by
  simp only [Document.replaceTarget, Traced.events_bind]
  refine (silent_prepare disk temporary).append ?_
  split
  · exact silent_nil
  · exact silent_complete d settings _ temporary target defaults

/-- Writing a file publishes nothing. -/
theorem silent_save (d : Document) (env : Environment) (disk : Disk) (defaults : Bool) :
    Silent (d.save env disk defaults).events := by
  have hdirectory : Silent (Document.ensureDirectory env disk).events := by
    unfold Document.ensureDirectory
    split
    · exact silent_nil
    · split
      · exact silent_nil
      · exact (silent_singleton rfl).append silent_nil
  simp only [Document.save, Traced.events_bind]
  refine hdirectory.append ?_
  split
  · exact silent_nil
  · simp only [Traced.events_bind]
    refine (silent_singleton rfl).append ((silent_replaceTarget d _ _ _ _ _).append ?_)
    split
    · exact (silent_singleton rfl).append ((silent_singleton rfl).append silent_nil)
    · exact silent_nil

/-- A file is written. -/
theorem save (d : Document) (env : Environment) (disk : Disk) (defaults : Bool) :
    d.EvolvesIn names palette (d.save env disk defaults).events
      (d.save env disk defaults).result.1 := by
  obtain ⟨stamp, hdocument⟩ := d.save_document env disk defaults
  rw [hdocument, ← List.append_nil (d.save env disk defaults).events]
  exact afterSilent (silent_save d env disk defaults) (setStamp d stamp)

/-! ## Reading and reloading -/

/-- Making a file that is missing publishes nothing. -/
theorem silent_bootstrap (d : Document) (env : Environment) (disk : Disk) :
    Silent (d.bootstrap env disk).events := by
  unfold Document.bootstrap
  dsimp only
  split
  · exact silent_nil
  · simp only [Traced.events_bind]
    refine (silent_save d env disk true).append ?_
    split
    · exact silent_nil
    · exact (silent_singleton rfl).append silent_nil

/-- A file is made if it is missing. -/
theorem bootstrap (d : Document) (env : Environment) (disk : Disk) :
    d.EvolvesIn names palette (d.bootstrap env disk).events (d.bootstrap env disk).result.1 := by
  obtain ⟨stamp, hdocument⟩ := d.bootstrap_document env disk
  rw [hdocument, ← List.append_nil (d.bootstrap env disk).events]
  exact afterSilent (silent_bootstrap d env disk) (setStamp d stamp)

/-- A file is read from the disk. -/
theorem load (d : Document) (env : Environment) (disk : Disk) (reloading : Bool) :
    d.EvolvesIn names palette (d.load env disk reloading).events
      (d.load env disk reloading).result.1 := by
  simp only [Document.load, Traced.events_bind, Traced.result_bind]
  refine trans (bootstrap d env disk) ?_
  -- A file that is read has its stamp noted, whether it was rejected or not.
  have hparse (disk : Disk) (content : List UInt8) (e : Document) :
      e.EvolvesIn names palette ((e.parse disk (d.path env) content).events ++ [])
        ((e.parse disk (d.path env) content).result.1.recordStamp env
          (e.parse disk (d.path env) content).result.2.1) :=
    trans (parse e disk _ content) (setStamp _ _)
  split
  · cases reloading
    · exact afterSilent (silent_singleton rfl) (hparse _ _ _)
    · exact hparse _ _ _
  · cases reloading
    · exact afterSilent (silent_singleton rfl) (setVersionRead _ 1)
    · exact setVersionRead _ 1
  · exact afterSilent (silent_singleton rfl) (afterSilent (silent_singleton rfl) (refl _))

/-- A file is read by its own function. -/
theorem read (d : Document) (env : Environment) (disk : Disk) :
    d.EvolvesIn names palette (d.read env disk).events (d.read env disk).result.1 :=
  load d env disk false

/-- All options lose their marks, but those that a read hook takes care of. -/
theorem markMissing (d : Document) : d.EvolvesIn names palette [] d.markMissing := by
  let mark (s : Section) : Section :=
    if s.hooks.read.isSome then s
    else { s with entries := s.entries.map fun e => { e with loaded := false } }
  have hmark (s : Section) : s.Evolves [] (mark s) := by
    unfold mark
    split
    · exact .refl s
    · exact ⟨rfl, .mark s.toBody false⟩
  have h : d.EvolvesIn names palette _ _ := eachSection d (fun s => pure (mark s)) hmark
  rw [Traced.each_pure] at h
  exact h

/-- All options without marks are reset. -/
theorem resetMissing (d : Document) :
    d.EvolvesIn names palette d.resetMissing.events d.resetMissing.result :=
  trans (eachSection d _ Section.Evolves.resetMissing) (refl _)

/-- A file is reloaded by its own function. -/
theorem reload (d : Document) (env : Environment) (disk : Disk) :
    d.EvolvesIn names palette (d.reload env disk).events (d.reload env disk).result.1 := by
  simp only [Document.reload, Traced.events_bind, Traced.result_bind]
  refine afterSilent (silent_singleton rfl) ?_
  have hload : d.EvolvesIn names palette _ _ :=
    trans (markMissing d) (load d.markMissing env disk true)
  rw [List.nil_append] at hload
  exact trans hload (trans (resetMissing _) (refl _))

/-! ## What stays -/

/-- What is in the file changes under the same name. -/
theorem name_eq {d d' : Document} {es : List Event} (h : d.EvolvesIn names palette es d') :
    d'.name = d.name := by
  induction h with
  | silent | inSection | eachSection | note | setReloading => rfl
  | addSection d s =>
    unfold Document.addSection
    split
    · rfl
    · split <;> rfl
  | removeSection d name =>
    unfold Document.removeSection
    split <;> rfl
  | setVersion d version =>
    unfold Document.setVersion
    split <;> rfl
  | trans _ _ ih ih' => exact ih'.trans ih

/-- The names of sections stay of their kind, and the programs that add them too. -/
theorem admits {d d' : Document} {es : List Event} (h : d.EvolvesIn names palette es d')
    (hd : d.Admits names) : d'.Admits names := by
  -- A section comes in where one is added, and a program where one is set. The rest keeps names.
  induction h with
  | silent => exact hd
  | inSection d hs h =>
    refine ⟨fun t ht => ?_, hd.reloading⟩
    rcases Roster.mem_of_mem_replace ht with rfl | ht
    · rw [h.names_eq.2]
      exact hd.sections _ (Roster.mem_of_find?_eq_some hs)
    · exact hd.sections t ht
  | eachSection d f h =>
    refine ⟨fun t ht => ?_, hd.reloading⟩
    rw [Traced.result_each] at ht
    obtain ⟨s, hs, rfl⟩ := List.mem_map.1 ht
    rw [(h s).names_eq.2]
    exact hd.sections s hs
  | addSection d s hname =>
    unfold Document.addSection
    split
    · exact hd
    · split
      · exact hd
      · next t ht =>
        obtain rfl := Section.eq_of_ofDefinition? ht
        refine ⟨fun u hu => ?_, hd.reloading⟩
        rcases Roster.mem_insert.1 hu with rfl | hu
        · exact hname
        · exact hd.sections u hu
  | removeSection d name =>
    unfold Document.removeSection
    split
    · exact hd
    · exact ⟨fun s hs => hd.sections s ((Roster.erase_sublist name d.sections).subset hs),
        hd.reloading⟩
  | setVersion d version =>
    unfold Document.setVersion
    split <;> exact ⟨hd.sections, hd.reloading⟩
  | note => exact ⟨hd.sections, hd.reloading⟩
  | setReloading d program hprogram =>
    refine ⟨hd.sections, fun x hx => ?_⟩
    obtain rfl := Option.some.inj hx
    exact hprogram
  | trans _ _ ih ih' => exact ih' (ih hd)

/-! ## A host's own reload -/

/-- The rest of a program sees a file that has the right names still. -/
theorem andThen {d e f : Document} {es fs : List Event} (hd : d.Admits names)
    (h : d.EvolvesIn names palette es e) (h' : e.Admits names → e.EvolvesIn names palette fs f) :
    d.EvolvesIn names palette (es ++ fs) f :=
  trans h (h' (h.admits hd))

/-- A host's own reload does nothing to a file but what the file's functions do. -/
theorem run (env : Environment) (program : Reloading) (h : program.AddsOnly names) (d : Document)
    (hd : d.Admits names) (disk : Disk) :
    d.EvolvesIn names env.palette (program.run env d disk).events
      (program.run env d disk).result.1 := by
  induction program generalizing d disk with
  | finish result => exact refl d
  | look next ih => exact ih _ (h _ hd.sections) d hd disk
  | read next ih => exact andThen hd (read d env disk) fun hd => ih _ (h _) _ hd _
  | reload next ih => exact andThen hd (reload d env disk) fun hd => ih _ (h _) _ hd _
  | save defaults next ih => exact andThen hd (save d env disk defaults) fun hd => ih _ (h _) _ hd _
  | parse bytes next ih => exact andThen hd (parse d disk _ bytes) fun hd => ih _ (h _) _ hd _
  | setVersion version next ih =>
    exact andThen hd (setVersion d version) fun hd => ih _ (h _) _ hd _
  | setMigration migration next ih =>
    exact andThen hd (note d d.versionRead d.stamp (some migration)) fun hd => ih h _ hd _
  | setReloading program next _ ih =>
    exact andThen hd (setReloading d program h.1) fun hd => ih h.2 _ hd _
  | addSection definition next ih =>
    exact andThen hd (addSection d definition h.1) fun hd => ih _ (h.2 _) _ hd _
  | removeSection name next ih =>
    exact andThen hd (removeSection d name) fun hd => ih _ (h _) _ hd _
  | edit name script next ih =>
    exact andThen hd (onSection d name _ fun s => .script s script) fun hd => ih _ (h _) _ hd _
  | create name option value next ih =>
    exact andThen hd (onSection d name _ fun s => .create s option value)
      fun hd => ih _ (h _) _ hd _
  | unset name option next ih =>
    exact andThen hd (onSection d name _ fun s => .unset s option) fun hd => ih _ (h _) _ hd _

/-- A file is reloaded, by the host's function if it has one. -/
theorem renew (d : Document) (hd : d.Admits names) (env : Environment) (disk : Disk) :
    d.EvolvesIn names env.palette (d.renew env disk).events (d.renew env disk).result.1 := by
  unfold Document.renew
  split
  · next program hprogram =>
    exact afterSilent (silent_singleton rfl)
      (run env program (hd.reloading program hprogram) d hd disk)
  · exact reload d env disk

end Document.EvolvesIn

end TypedConfig
