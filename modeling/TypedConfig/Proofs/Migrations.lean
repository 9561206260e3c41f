import TypedConfig.Proofs.Outcomes
import TypedConfig.Proofs.Rejection

/-!
# Which lines are migrated

A text of an older version is brought up to date line by line: its headers go through the migration,
and so do the option lines below the header of a section. Which lines these are, and what the
migration is given of them, is said by `Routing.legacyLines` without a look at the options: it
depends on the lines, on the sections' names and on the version that is in force at the first header
(`versionInForce`). The user is told once that the text is older, when the first of these lines is
met.

`Document.updates_of_parse` says that nothing else is ever migrated or told. The version can change
before the first header only, so the lines before it and those from it on are two inductions, and
the second one is about a version that stays.
-/

namespace TypedConfig

/-- Whether an event is the call of a migration, or tells the user that a text is older. -/
def Event.isUpdate : Event → Bool
  | .migrated .. => true
  | .warning text => "Important: ".toList.isPrefixOf text.toList
  | _ => false

/-! ## What lines say -/

/-- Whether a line opens a section, be it known or not. -/
def Line.isHeader : Line → Bool
  | .header _ => true
  | _ => false

/-- The version that a line before the first header gives to its text, unless it is too new. -/
def Line.acceptedVersion? (supported : Nat) : Line → Option Nat
  | .option name raw =>
    if name = versionName then (version? raw).filter (· ≤ supported) else none
  | _ => none

/-- The version in force at the first header: the last one that was accepted before it. -/
def versionInForce (supported start : Nat) (lines : List Line) : Nat :=
  ((lines.takeWhile fun line => !line.isHeader).filterMap
    (Line.acceptedVersion? supported)).getLastD start

/-- The calls of a migration that is given a line: one of a single revision, and those of the steps
that a chain comes to. -/
def Migration.calls : Migration → LineData → List Event
  | .single _, line => [.migrated none line]
  | .chain steps, line => (steps.run line).events.filter Event.isUpdate

namespace Routing

/-- What a line gives to the migration, if it is for it. -/
def legacy? (r : Routing) (c : Cursor) : Line → Option LineData
  | .header name => some (r.lineData c name none none)
  | .option name raw =>
    match c.standing with
    | .within sectionName => some (r.lineData c sectionName (some name) (Line.value raw))
    | .outside | .astray => none
  | .skipped | .unclosedHeader => none

/-- Where the line after a line stands. -/
def standingAfter (r : Routing) (c : Cursor) : Line → Standing
  | .header name => r.standing c name
  | _ => c.standing

/-- What lines give to the migration, in their order, while the version stays the same. -/
def legacyLines (r : Routing) (versionRead : Nat) : Standing → List Line → List LineData
  | _, [] => []
  | standing, line :: lines =>
    (r.legacy? ⟨versionRead, standing⟩ line).toList ++
      legacyLines r versionRead (r.standingAfter ⟨versionRead, standing⟩ line) lines

/-- The calls of the migration with a line, if there is a migration. -/
def calls (r : Routing) (line : LineData) : List Event :=
  match r.migration with
  | some migration => migration.calls line
  | none => []

/-- The user is told that a text is of an older version. -/
def announcement (r : Routing) (origin : String) (versionRead : Nat) : Event :=
  .warning ("Important: file " ++ origin ++ " has been updated from version " ++
    Numeral.ofNat versionRead ++ " to " ++ Numeral.ofNat r.version ++
    ", it is not compatible and can not be loaded any more with any older version")

/-- What happens for lines that are for the migration: nothing in a text that is up to date. In an
older one the user is told before the first line, unless that is done, and each line is migrated. -/
def updates (r : Routing) (origin : String) (versionRead : Nat) (announced : Bool)
    (lines : List LineData) : List Event :=
  if r.version ≤ versionRead then []
  else (if announced || lines.isEmpty then [] else [r.announcement origin versionRead]) ++
    lines.flatMap r.calls

/-- Lines may be dealt with in two parts. -/
theorem updates_append (r : Routing) (origin : String) (versionRead : Nat) (announced : Bool)
    (xs ys : List LineData) :
    r.updates origin versionRead announced (xs ++ ys) =
      r.updates origin versionRead announced xs ++
        r.updates origin versionRead
          (announced || (decide (versionRead < r.version) && !xs.isEmpty)) ys := by
  unfold updates
  split
  · rfl
  · next hversion =>
    have holder : versionRead < r.version := Nat.not_le.1 hversion
    cases xs with
    | nil => simp
    | cons x xs => cases announced <;> simp [holder]

end Routing

/-- The lines of bytes, as they are understood. -/
def textLines (bytes : List UInt8) : List Line :=
  (linesOf bytes).map fun line => Line.ofText (Utf8.decode line)

/-- The version of a text that a file takes in. -/
def Document.textVersion (d : Document) (bytes : List UInt8) : Nat :=
  versionInForce d.version 1 (textLines bytes)

/-- What a text gives to the migration of a file, in the order of its lines. -/
def Document.legacyLines (d : Document) (bytes : List UInt8) : List LineData :=
  d.routing.legacyLines (d.textVersion bytes) .outside (textLines bytes)

/-! ## What sections do by themselves -/

/-- Nothing is migrated, and nobody is told of an older version. -/
def Unmigrated (es : List Event) : Prop :=
  ∀ x ∈ es, x.isUpdate = false

/-- Where nothing happens, nothing is migrated. -/
theorem unmigrated_nil : Unmigrated [] :=
  List.forall_mem_nil _

/-- An event that is not about an update stands for no migration. -/
theorem unmigrated_singleton {x : Event} (h : x.isUpdate = false) : Unmigrated [x] :=
  List.forall_mem_singleton.2 h

/-- Nothing is migrated in two parts of which none migrates anything. -/
theorem Unmigrated.append {es fs : List Event} (he : Unmigrated es) (hf : Unmigrated fs) :
    Unmigrated (es ++ fs) :=
  List.forall_mem_append.2 ⟨he, hf⟩

/-- None of the events is about an update. -/
theorem Unmigrated.filter_eq {es : List Event} (h : Unmigrated es) :
    es.filter Event.isUpdate = [] :=
  List.filter_eq_nil_iff.2 fun x hx => by simp [h x hx]

/-- Whether an event belongs to the work of a section and its options: it is no message for the user
and no call of a migration. -/
def Event.isOwn : Event → Bool
  | .warning _ | .error _ | .migrated .. => false
  | _ => true

/-- Nothing happens but a section's own work. -/
def Own (es : List Event) : Prop :=
  ∀ x ∈ es, x.isOwn = true

/-- Where nothing happens, a section is at its own work. -/
theorem own_nil : Own [] :=
  List.forall_mem_nil _

/-- An event of a section is its own work. -/
theorem own_singleton {x : Event} (h : x.isOwn = true) : Own [x] :=
  List.forall_mem_singleton.2 h

/-- Two parts of a section's work are its work. -/
theorem Own.append {es fs : List Event} (he : Own es) (hf : Own fs) : Own (es ++ fs) :=
  List.forall_mem_append.2 ⟨he, hf⟩

/-- A change of an option is its section's work. -/
theorem Entry.own_mutate (e : Entry) (m : Mutation) : Own (e.mutate m).events := by
  have h := settles_mutate e m
  have hasked : Own (e.inquiries m) := by
    unfold inquiries inquiry
    split
    · split
      · exact own_singleton rfl
      · exact own_nil
    · exact own_nil
  by_cases hchanged : (e.mutate m).result.2 = .ok .changed
  · rw [h.changed_events hchanged]
    refine (hasked.append ?_).append (own_singleton rfl)
    split
    · exact own_singleton rfl
    · exact own_nil
  · rw [h.unchanged_events hchanged]
    exact hasked

/-- The removal of an option is its section's work. -/
theorem Entry.own_removalEvents (e : Entry) : Own e.removalEvents := by
  refine Own.append ?_ (own_singleton rfl)
  split
  · exact own_singleton rfl
  · exact own_nil

/-- What is done to an option is the section's work, if that is so for each option. -/
theorem Body.own_change {α : Type} (b : Body) (name : String)
    {f : Entry → Traced (Entry × α)} (h : ∀ e, Own (f e).events) :
    Own (b.change name f).events := by
  unfold change
  split
  · exact own_nil
  · next e _ => exact (h e).append own_nil

/-- All that the functions of a section do is its own work, and so is what hooks do. -/
theorem Script.own_run {α : Type} (script : Script α) (b : Body) :
    Own (script.run b).events := by
  induction script generalizing b with
  | finish result => exact own_nil
  | look next ih => exact ih b b
  | define d next ih =>
    refine Own.append ?_ (ih _ _)
    unfold Body.define
    split
    · exact own_nil
    · split
      · exact own_nil
      · exact (own_singleton rfl).append own_nil
  | remove name next ih =>
    refine Own.append ?_ (ih _ _)
    unfold Body.remove
    split
    · exact own_nil
    · next e _ =>
      exact e.own_removalEvents.append
        ((own_singleton rfl).append own_nil)
  | clear next ih =>
    refine Own.append (Own.append ?_ own_nil) (ih _)
    intro x hx
    obtain ⟨e, -, hx⟩ := List.mem_flatMap.1 hx
    exact e.own_removalEvents x hx
  | mutate name m next ih =>
    exact (b.own_change name fun e => e.own_mutate m).append (ih _ _)

/-- All that a hook does is the section's work. -/
theorem Section.own_runScript {α : Type} (s : Section) (script : Script α) :
    Own (s.runScript script).events :=
  (script.own_run s.toBody).append own_nil

/-- All that a line does to a section is the section's work. -/
theorem Section.own_applyLine (s : Section) (name : String) (value : Option String) :
    Own (s.applyLine name value).events := by
  unfold applyLine
  split
  · exact (own_singleton rfl).append (s.own_runScript _)
  · split
    · have hset (e : Entry) : Own ((e.set value).events ++ []) :=
        (e.own_mutate (.set value)).append own_nil
      exact ((s.toBody.own_change name hset).append own_nil).append own_nil
    · split
      · exact (own_singleton rfl).append (s.own_runScript _)
      · exact own_nil

/-- What is done to a section of a file is the section's work, if that is so for each section. -/
theorem Document.own_onSection {α : Type} (d : Document) (name : String)
    {f : Section → Traced (Section × α)} (h : ∀ s, Own (f s).events) :
    Own (d.onSection name f).events := by
  unfold onSection
  split
  · exact own_nil
  · next s _ => exact (h s).append own_nil

/-- A section's own work is not about an update. -/
theorem Own.unmigrated {es : List Event} (h : Own es) : Unmigrated es := by
  intro x hx
  have hown := h x hx
  cases x <;> first | rfl | cases hown

/-! ## One line -/

/-- Of the events of a migration, its calls are about an update. -/
theorem Migration.filter_run (m : Migration) (line : LineData) :
    (m.run line).events.filter Event.isUpdate = m.calls line := by
  cases m <;> rfl

namespace Intake

/-- What a part of the reading does for the lines that it gives to the migration. -/
structure Brings (t : Intake) (origin : String) (lines : List LineData) (x : Traced Intake) :
    Prop where
  updates : x.events.filter Event.isUpdate =
    t.document.routing.updates origin t.document.versionRead t.announced lines
  announced : x.result.announced =
    (t.announced || (decide (t.document.versionRead < t.document.version) && !lines.isEmpty))

/-- A part that migrates nothing. -/
theorem brings_nothing {t : Intake} {origin : String} {x : Traced Intake}
    (hevents : Unmigrated x.events) (hannounced : x.result.announced = t.announced) :
    t.Brings origin [] x where
  updates := by
    rw [hevents.filter_eq]
    simp [Routing.updates]
  announced := by simp [hannounced]

/-- What happens for one line, where the user may have been told before, and where there need not be
a migration. -/
theorem filter_migrate (t : Intake) (origin : String) (line : LineData) :
    (t.migrate origin line).events.filter Event.isUpdate =
      t.document.routing.updates origin t.document.versionRead t.announced [line] := by
  have htold : [t.document.routing.announcement origin t.document.versionRead].filter
      Event.isUpdate = [t.document.routing.announcement origin t.document.versionRead] := by
    simp [Routing.announcement, Event.isUpdate, List.isPrefixOf]
  unfold Intake.migrate Routing.updates
  by_cases hversion : t.document.version ≤ t.document.versionRead
  · rw [if_pos hversion, if_pos (show t.document.routing.version ≤ _ from hversion)]
    rfl
  · rw [if_neg hversion, if_neg (show ¬t.document.routing.version ≤ _ from hversion)]
    have hcalls : t.document.routing.calls line =
        match t.document.migration with
        | some migration => migration.calls line
        | none => [] := rfl
    rw [List.flatMap_singleton, hcalls]
    cases ha : t.announced <;> cases hm : t.document.migration <;> simp only [hm]
    · exact htold
    · next m =>
      show ([t.document.routing.announcement origin t.document.versionRead] ++
        ((m.run line).events ++ [])).filter Event.isUpdate = _
      rw [List.append_nil, List.filter_append, htold, m.filter_run]
      rfl
    · rfl
    · next m =>
      show ((m.run line).events ++ []).filter Event.isUpdate = _
      rw [List.append_nil, m.filter_run]
      rfl

/-- The first line of an older text that is for the migration is noted. -/
theorem announced_migrate (t : Intake) (origin : String) (line : LineData) :
    (t.migrate origin line).result.1.announced =
      (t.announced || decide (t.document.versionRead < t.document.version)) := by
  unfold Intake.migrate
  by_cases hversion : t.document.version ≤ t.document.versionRead
  · rw [if_pos hversion]
    simp [Nat.not_lt.2 hversion]
  · rw [if_neg hversion]
    have holder := Nat.not_le.1 hversion
    cases ha : t.announced <;> cases hm : t.document.migration <;> simp [hm, holder]

/-- A part that begins with a migration and goes on without one. -/
theorem brings_migrate (t : Intake) (origin : String) (line : LineData)
    {f : Intake × LineData → Traced Intake} (hevents : ∀ p, Unmigrated (f p).events)
    (hannounced : ∀ p, (f p).result.announced = p.1.announced) :
    t.Brings origin [line] (t.migrate origin line >>= f) where
  updates := by
    rw [Traced.events_bind, List.filter_append, (hevents _).filter_eq, List.append_nil,
      filter_migrate]
  announced := by
    rw [Traced.result_bind, hannounced, announced_migrate]
    simp

/-- The warning of a line that is dropped is not about an update. -/
theorem unmigrated_warn {t : Intake} {origin : String} {kind : WarningKind} {line reason : String} :
    Unmigrated (t.warn origin kind line reason).events := by
  refine (unmigrated_singleton ?_).append unmigrated_nil
  simp [Event.isUpdate, List.isPrefixOf]

/-- A header is given to the migration. -/
theorem brings_openSection (t : Intake) (origin line name : String) :
    t.Brings origin [t.lineData name none none] (t.openSection origin line name) := by
  refine brings_migrate t origin _ (fun p => ?_) fun p => ?_
  · dsimp only
    split
    · exact unmigrated_nil
    · exact unmigrated_warn
  · dsimp only
    split <;> rfl

/-- A version line is not given to the migration. -/
theorem brings_takeVersion (t : Intake) (origin line : String) (raw : Option String) :
    t.Brings origin [] (t.takeVersion origin line raw) := by
  have hcomplain (text : String) : Unmigrated ([Event.error text] ++ []) :=
    (unmigrated_singleton rfl).append unmigrated_nil
  unfold takeVersion
  split
  · exact brings_nothing (hcomplain _) rfl
  · dsimp only
    split
    · exact brings_nothing unmigrated_nil rfl
    · exact brings_nothing (hcomplain _) rfl

/-- An option line is given to the migration, and then to its section. -/
theorem brings_takeOption (t : Intake) (origin line sectionName name : String)
    (value : Option String) :
    t.Brings origin [t.lineData sectionName (some name) value]
      (t.takeOption origin line sectionName name value) := by
  refine brings_migrate t origin _ (fun p => ?_) fun p => ?_
  · dsimp only
    split
    · exact unmigrated_nil
    · refine Unmigrated.append
        (Document.own_onSection _ _ fun s => s.own_applyLine _ _).unmigrated ?_
      dsimp only
      split
      · exact unmigrated_warn
      · exact (unmigrated_singleton rfl).append unmigrated_warn
      · exact unmigrated_nil
  · dsimp only
    split
    · rfl
    · simp only [Traced.result_bind]
      split <;> rfl

/-- A line gives to the migration what the routing says. -/
theorem brings_takeLine (t : Intake) (origin : String) (text : List Char) :
    t.Brings origin (t.document.routing.legacy? t.cursor (Line.ofText text)).toList
      (t.takeLine origin text) := by
  unfold takeLine
  -- The line is counted first, which is not looked at here.
  have hbrings (lines : List LineData) (x : Traced Intake)
      (h : { t with linesRead := t.linesRead + 1 : Intake }.Brings origin lines x) :
      t.Brings origin lines x := ⟨h.updates, h.announced⟩
  refine hbrings _ _ ?_
  have hlegacy : t.document.routing.legacy? t.cursor (Line.ofText text) =
      { t with linesRead := t.linesRead + 1 : Intake }.document.routing.legacy?
        { t with linesRead := t.linesRead + 1 : Intake }.cursor (Line.ofText text) := rfl
  rw [hlegacy]
  generalize { t with linesRead := t.linesRead + 1 : Intake } = u
  dsimp only
  cases Line.ofText text with
  | skipped => exact brings_nothing unmigrated_nil rfl
  | unclosedHeader => exact brings_nothing unmigrated_warn rfl
  | header name => exact brings_openSection u origin _ name
  | option name raw =>
    unfold Routing.legacy? cursor
    dsimp only
    cases u.standing with
    | outside =>
      dsimp only
      split
      · exact brings_takeVersion u origin _ raw
      · exact brings_nothing unmigrated_warn rfl
    | astray => exact brings_nothing ((unmigrated_singleton rfl).append unmigrated_nil) rfl
    | within sectionName => exact brings_takeOption u origin _ sectionName name _

end Intake

/-! ## All lines -/

/-- Only headers change where the next line stands. -/
theorem Routing.standing_step (r : Routing) (c : Cursor) (text : List Char) :
    (r.step c text).1.standing = r.standingAfter c (Line.ofText text) := by
  obtain ⟨versionRead, standing⟩ := c
  unfold step standingAfter
  cases Line.ofText text with
  | option name raw =>
    cases standing with
    | outside =>
      dsimp only
      split <;> rfl
    | astray => rfl
    | within sectionName => rfl
  | _ => rfl

/-- From the first header on the version stays. -/
theorem Routing.versionRead_step (r : Routing) {c : Cursor} {text : List Char}
    (h : (Line.ofText text).isHeader = true ∨ c.standing ≠ .outside) :
    (r.step c text).1.versionRead = c.versionRead := by
  obtain ⟨versionRead, standing⟩ := c
  unfold step
  revert h
  cases Line.ofText text with
  | option name raw =>
    intro h
    cases standing with
    | outside =>
      rcases h with h | h
      · cases h
      · exact absurd rfl h
    | astray => rfl
    | within sectionName => rfl
  | _ => exact fun _ => rfl

/-- Before the first header a line that passes is at most a version line, whose version counts. -/
theorem Document.versionRead_step (d : Document) {origin : String} {c : Cursor}
    (h : c.standing = .outside) {text : List Char} (hpasses : d.Passes origin (Line.ofText text)) :
    (d.routing.step c text).1.versionRead =
      ((Line.ofText text).acceptedVersion? d.version).getD c.versionRead := by
  obtain ⟨versionRead, standing⟩ := c
  dsimp only at h
  subst h
  unfold Routing.step
  revert hpasses
  cases Line.ofText text with
  | skipped => exact fun _ => rfl
  | unclosedHeader => exact fun _ => rfl
  | header name => exact False.elim
  | option name raw =>
    intro hpasses
    by_cases hname : name = Line.versionName
    · have hrefusal := hpasses hname
      unfold refusal? at hrefusal
      simp only [Line.acceptedVersion?, if_pos hname]
      cases hversion : Line.version? raw with
      | none =>
        rw [hversion] at hrefusal
        cases hrefusal
      | some version =>
        rw [hversion] at hrefusal
        dsimp only at hrefusal
        split at hrefusal
        · next hle => simp [Option.filter, hle]
        · cases hrefusal
    · simp only [Line.acceptedVersion?, if_neg hname]
      rfl

/-- Before the first header only this header is for the migration, and only it opens a section. -/
theorem Routing.legacy?_of_outside (r : Routing) (versionRead : Nat) {line : Line}
    (h : line.isHeader = false) :
    r.legacy? ⟨versionRead, .outside⟩ line = none ∧
      r.standingAfter ⟨versionRead, .outside⟩ line = .outside := by
  cases line with
  | header name => cases h
  | _ => exact ⟨rfl, rfl⟩

/-- A header ends the lines that set the version. -/
theorem versionInForce_header (supported start : Nat) {line : Line} (h : line.isHeader = true)
    (lines : List Line) : versionInForce supported start (line :: lines) = start := by
  unfold versionInForce
  rw [List.takeWhile_cons_of_neg (by simp [h])]
  rfl

/-- A line before the first header may set the version, which counts for the lines after it. -/
theorem versionInForce_cons (supported start : Nat) {line : Line} (h : line.isHeader = false)
    (lines : List Line) :
    versionInForce supported start (line :: lines) =
      versionInForce supported ((line.acceptedVersion? supported).getD start) lines := by
  unfold versionInForce
  rw [List.takeWhile_cons_of_pos (by simp [h])]
  cases haccepted : line.acceptedVersion? supported with
  | none => rw [List.filterMap_cons_none haccepted, Option.getD_none]
  | some version =>
    rw [List.filterMap_cons_some haccepted, List.getLastD_cons, Option.getD_some]

namespace Intake

/-- From the first header on the version stays, and so each line does what it does in a text of that
version. The induction is on the lines. -/
theorem filter_takeLines_inside (origin : String) (lines : List (List Char)) {t : Intake}
    (h : t.standing ≠ .outside) (hrejected : t.rejected = none) :
    (takeLines origin lines t).events.filter Event.isUpdate =
      t.document.routing.updates origin t.document.versionRead t.announced
        (t.document.routing.legacyLines t.document.versionRead t.standing
          (lines.map Line.ofText)) := by
  induction lines generalizing t with
  | nil => simp [takeLines, Routing.legacyLines, Routing.updates]
  | cons line lines ih =>
    obtain ⟨hkept, hinside⟩ := takeLine_inside h origin line
    have hnone : (t.takeLine origin line).result.rejected = none := hkept.trans hrejected
    obtain ⟨hcursor, hdocument⟩ := takeLine_spec t origin line hnone
    have hrouting : (t.takeLine origin line).result.document.routing = t.document.routing := by
      rw [hdocument, Document.routing_accept]
    have hversion : (t.takeLine origin line).result.document.versionRead =
        t.document.versionRead :=
      (congrArg Cursor.versionRead hcursor).trans (Routing.versionRead_step _ (.inr h))
    have hstanding : (t.takeLine origin line).result.standing =
        t.document.routing.standingAfter t.cursor (Line.ofText line) :=
      (congrArg Cursor.standing hcursor).trans (Routing.standing_step ..)
    obtain ⟨hupdates, hannounced⟩ := brings_takeLine t origin line
    simp only [takeLines, Traced.events_bind, hnone, Option.isSome_none, Bool.false_eq_true,
      if_false, List.filter_append, hupdates, ih hinside hnone, hrouting, hversion, hstanding,
      hannounced]
    exact (Routing.updates_append ..).symm

/-- Before the first header a file has its old routing, and the version was the last one read. -/
theorem Outside.routing_and_cursor {d : Document} {t : Intake} (h : t.Outside d) :
    t.document.routing = d.routing ∧ t.cursor = ⟨t.document.versionRead, .outside⟩ := by
  obtain ⟨versionRead, hdocument⟩ := h.document
  refine ⟨?_, cursor_eq rfl h.standing⟩
  rw [hdocument]
  rfl

/-- The first header leads where the migration puts it, and the version stays what it is. -/
theorem Outside.takeLine_header {d : Document} {t : Intake} (h : t.Outside d) {origin : String}
    {line : List Char} (hgoes : (t.takeLine origin line).result.rejected = none)
    (hinside : (t.takeLine origin line).result.standing ≠ .outside) :
    (Line.ofText line).isHeader = true ∧
      (t.takeLine origin line).result.document.routing = d.routing ∧
      (t.takeLine origin line).result.document.versionRead = t.document.versionRead ∧
      (t.takeLine origin line).result.standing =
        d.routing.standingAfter ⟨t.document.versionRead, .outside⟩ (Line.ofText line) := by
  obtain ⟨hrouting, hstart⟩ := h.routing_and_cursor
  obtain ⟨hcursor, hdocument⟩ := takeLine_spec t origin line hgoes
  rw [hrouting, hstart] at hcursor hdocument
  have hstanding : (t.takeLine origin line).result.standing = d.routing.standingAfter
      ⟨t.document.versionRead, .outside⟩ (Line.ofText line) :=
    (congrArg Cursor.standing hcursor).trans (Routing.standing_step ..)
  have hheader : (Line.ofText line).isHeader = true := by
    by_contra hnot
    rw [(d.routing.legacy?_of_outside _ (Bool.not_eq_true _ ▸ hnot)).2] at hstanding
    exact hinside hstanding
  have hversion : (t.takeLine origin line).result.document.versionRead =
      t.document.versionRead :=
    (congrArg Cursor.versionRead hcursor).trans (Routing.versionRead_step _ (.inl hheader))
  exact ⟨hheader, by rw [hdocument, Document.routing_accept, hrouting], hversion, hstanding⟩

/-- A line that passes before the first header is no header, and at most it sets the version. -/
theorem Outside.takeLine_passes {d : Document} {t : Intake} (h : t.Outside d) {origin : String}
    {line : List Char} (hgoes : (t.takeLine origin line).result.rejected = none)
    (hpasses : d.Passes origin (Line.ofText line)) :
    (Line.ofText line).isHeader = false ∧
      (t.takeLine origin line).result.document.versionRead =
        ((Line.ofText line).acceptedVersion? d.version).getD t.document.versionRead := by
  obtain ⟨hrouting, hstart⟩ := h.routing_and_cursor
  obtain ⟨hcursor, -⟩ := takeLine_spec t origin line hgoes
  rw [hrouting, hstart] at hcursor
  constructor
  · revert hpasses
    cases Line.ofText line with
    | header name => exact False.elim
    | _ => exact fun _ => rfl
  · exact (congrArg Cursor.versionRead hcursor).trans (d.versionRead_step rfl hpasses)

/-- Before the first header nothing is migrated, and the version that is in force at this header is
that of all lines after it. The induction is on the lines, and it carries the version. -/
theorem Outside.filter_takeLines {d : Document} (origin : String) (lines : List (List Char))
    {t : Intake} (h : t.Outside d) (hrejected : t.rejected = none)
    (hannounced : t.announced = false) :
    (takeLines origin lines t).events.filter Event.isUpdate =
      if (takeLines origin lines t).result.rejected.isSome then []
      else d.routing.updates origin
        (versionInForce d.version t.document.versionRead (lines.map Line.ofText)) false
        (d.routing.legacyLines
          (versionInForce d.version t.document.versionRead (lines.map Line.ofText)) .outside
          (lines.map Line.ofText)) := by
  induction lines generalizing t with
  | nil => simp [takeLines, Routing.legacyLines, Routing.updates, hrejected]
  | cons line lines ih =>
    obtain ⟨hrouting, hstart⟩ := h.routing_and_cursor
    have hsupported : t.document.version = d.version := congrArg Routing.version hrouting
    obtain ⟨hupdates, htold⟩ := brings_takeLine t origin line
    rw [hrouting, hstart, hannounced] at hupdates htold
    rw [hsupported] at htold
    simp only [takeLines, Traced.events_bind, Traced.result_bind, List.filter_append, hupdates,
      List.map_cons]
    have hnothing : d.routing.updates origin t.document.versionRead false [] = [] := by
      simp [Routing.updates]
    rcases h.takeLine_cases hrejected origin line with
      ⟨hgoes, hinside⟩ | ⟨hout, -, -, ⟨hpasses, hgoes⟩ | ⟨raw, failure, hversion, -, hstops⟩⟩
    · -- The first header was met: the lines after it are of the version that was read last.
      obtain ⟨hheader, hafter, hversion, hstanding⟩ := h.takeLine_header hgoes hinside
      have hkept := takeLines_inside origin lines hinside
      simp only [hgoes, Option.isSome_none, Bool.false_eq_true, if_false, hkept,
        filter_takeLines_inside origin lines hinside hgoes, hafter, hversion, hstanding, htold,
        versionInForce_header _ _ hheader]
      exact (Routing.updates_append ..).symm
    · -- The line brings nothing, but it may set the version for those after it.
      obtain ⟨hplain, hversion⟩ := h.takeLine_passes hgoes hpasses
      have hquiet (versionRead : Nat) := d.routing.legacy?_of_outside versionRead hplain
      rw [(hquiet _).1] at htold ⊢
      have htail := ih hout hgoes (by simpa using htold)
      simp only [hgoes, Option.isSome_none, Bool.false_eq_true, if_false, Option.toList_none,
        hnothing, List.nil_append, htail, hversion, versionInForce_cons _ _ hplain,
        Routing.legacyLines, hquiet]
    · -- The line rejects the file, and none after it is read.
      have hplain : (Line.ofText line).isHeader = false := by
        rw [hversion]
        rfl
      rw [(d.routing.legacy?_of_outside _ hplain).1]
      simp only [hstops, Option.isSome_some, if_true, Option.toList_none, hnothing,
        Traced.events_pure, Traced.result_pure, List.filter_nil, List.append_nil]

end Intake

/-- A backup is not about an update. -/
theorem Backup.unmigrated_make (disk : Disk) (path : String) :
    Unmigrated (make disk path).events :=
  forall_mem_events_make disk (fun _ => by simp [Event.isUpdate, List.isPrefixOf])
    (fun _ => rfl) rfl

/-- The lines that are for the migration are migrated, once each and in their order, and the user is
told of the older version before them. No other line is migrated, and none at all of a text that is
rejected or up to date. -/
theorem Document.updates_of_parse (d : Document) (disk : Disk) (origin : String)
    (bytes : List UInt8) :
    (d.parse disk origin bytes).events.filter Event.isUpdate =
      if (d.parse disk origin bytes).result.2.2.rejected.isSome ∨ d.version ≤ d.textVersion bytes
      then []
      else (if (d.legacyLines bytes).isEmpty then []
          else [d.routing.announcement origin (d.textVersion bytes)]) ++
        (d.legacyLines bytes).flatMap d.routing.calls := by
  have hstart : ({ document := { d with versionRead := 1 } } : Intake).Outside d :=
    ⟨rfl, ⟨1, rfl⟩, List.forall_mem_nil _⟩
  have htaken := hstart.filter_takeLines origin ((linesOf bytes).map Utf8.decode) rfl rfl
  rw [List.map_map] at htaken
  change (d.takeIn origin bytes).events.filter Event.isUpdate =
    if (d.takeIn origin bytes).result.rejected.isSome then []
    else d.routing.updates origin (d.textVersion bytes) false (d.legacyLines bytes) at htaken
  simp only [parse, Traced.events_bind, Traced.result_bind, List.filter_append, htaken]
  by_cases hrejected : (d.takeIn origin bytes).result.rejected.isSome
  · rw [if_pos hrejected, if_pos hrejected]
    simp only [Traced.events_bind, Traced.result_bind, Traced.events_pure, Traced.result_pure,
      List.append_nil, (Backup.unmigrated_make disk origin).filter_eq]
    exact (if_pos (.inl hrejected)).symm
  · rw [if_neg hrejected, if_neg hrejected, Traced.events_pure, Traced.result_pure, List.filter_nil,
      List.append_nil]
    have hreport : ¬(d.takeIn origin bytes).result.report.rejected.isSome := hrejected
    simp only [hreport, false_or, Bool.false_eq_true]
    rfl

/-- A text of version 2 for a file of version 3, whose section was called otherwise before. The
second version line stands below a header, where it is an option like any other. -/
example :
    { stocked with
        version := 3
        migration := some (.single fun line =>
          if line.sectionName = "view" then { line with sectionName := "look" } else line)
      }.legacyLines
      (Utf8.encode
        ("size = 8\nconfig_version = 2\n[view]\n# old\ndepth = 7 \nconfig_version = 3\n" ++
          "[look\n[lost]\ndepth = 3\n").toList) =
      [⟨"app", 2, "view", none, none⟩, ⟨"app", 2, "look", some "depth", some "7"⟩,
        ⟨"app", 2, "look", some "config_version", some "3"⟩, ⟨"app", 2, "lost", none, none⟩] := by
  decide +kernel

end TypedConfig
