import TypedConfig.Proofs.Confinement
import TypedConfig.Proofs.Migrations

/-!
# The warnings of a text

Which lines of a text are dropped with a warning, and of what kind the warning is, is said by
`Document.Faulty` from the line and the lines before it: a header without its bracket, a header of
no section of the file, an option line before the first header, and an option line below the header
of a section that fails to apply it. `Document.accounted_of_parse` says that a report has one
warning for each of these lines that was read, in their order, and none for any other, and that the
user is told each of them once.

A line has one fault at most, and what is taken down when it is read is this fault
(`Intake.Follows.exists_finds`). What the lines of a text take down is then put together line by
line (`Intake.FindsAll.bind`), where the state before a line is what the lines before it have made
of the file (`Intake.Follows`).
-/

namespace TypedConfig

/-! ## Faulty lines -/

/-- What is wrong with a line, as a kind and in words. -/
structure Fault where
  kind : WarningKind
  reason : String

/-- What the user is told of a fault in the line of a number. -/
def Fault.message (fault : Fault) (origin : String) (number : Nat) : Event :=
  .warning ("Warning: " ++ origin ++ ", line " ++ Numeral.ofNat number ++ ": " ++ fault.reason)

/-- The fault of a line that its section has refused. -/
def Failure.fault (failure : Failure) (sectionName line : String) : Fault :=
  match failure with
  | .unknownOption .. =>
    ⟨.unknownOption, "ignoring unknown option for section \"" ++ sectionName ++ "\": " ++ line⟩
  | _ =>
    ⟨.invalidValue,
      "ignoring invalid value for option in section \"" ++ sectionName ++ "\": " ++ line⟩

/-- The last header among lines is that of a section of the file. -/
def Routing.Opens (r : Routing) (lines : List (List Char)) (sectionName : String) : Prop :=
  ∃ before header after name, lines = before ++ header :: after ∧
    Line.ofText header = .header name ∧ (∀ line ∈ after, (Line.ofText line).isHeader = false) ∧
    r.migratedName (r.advance {} before) name = sectionName ∧ sectionName ∈ r.sections

/-- The file after lines, none of which rejects it. -/
def Document.upTo (d : Document) (lines : List (List Char)) : Document :=
  d.accept (d.routing.advance {} lines) (d.routing.deliveries {} lines)

/-- A line with a fault, where `before` are the lines before it and `content` is what is looked at
of the line itself. -/
inductive Document.Faulty (d : Document) (before : List (List Char)) (content : String) :
    Line → Fault → Prop
  /-- A header has no closing bracket. -/
  | missingBracket :
    d.Faulty before content .unclosedHeader ⟨.missingBracket, "invalid syntax, missing \"]\""⟩
  /-- The migrated name of a header is that of no section. -/
  | unknownSection {name target : String}
      (htarget : d.routing.migratedName (d.routing.advance {} before) name = target)
      (hunknown : target ∉ d.routing.sections) :
    d.Faulty before content (.header name)
      ⟨.unknownSection, "ignoring unknown section identifier (\"" ++ target ++ "\")"⟩
  /-- There is no header before the line of an option, which does not name the version. -/
  | outside {name : String} {raw : Option String} (hname : name ≠ Line.versionName)
      (hbefore : ∀ line ∈ before, (Line.ofText line).isHeader = false) :
    d.Faulty before content (.option name raw)
      ⟨.optionOutsideSection, "ignoring option outside section: " ++ content⟩
  /-- The section of an option line is known, its migration does not drop it, and the section fails
  to apply it. -/
  | refused {name sectionName : String} {raw : Option String} {l : Delivery} {failure : Failure}
      (hopens : d.routing.Opens before sectionName)
      (hdelivers : d.routing.delivery? (d.routing.advance {} before) sectionName name
        (Line.value raw) = some l)
      (hfails : ((d.upTo before).onSection sectionName fun s =>
        s.applyLine l.option l.value).result.2 = some (.error failure)) :
    d.Faulty before content (.option name raw) (failure.fault sectionName content)

/-! ## Where a line stands -/

/-- Lines have no header, or a last one. -/
theorem exists_last_header (lines : List (List Char)) :
    (∀ line ∈ lines, (Line.ofText line).isHeader = false) ∨
      ∃ before header after name, lines = before ++ header :: after ∧
        Line.ofText header = .header name ∧
        ∀ line ∈ after, (Line.ofText line).isHeader = false := by
  induction lines with
  | nil => exact .inl (List.forall_mem_nil _)
  | cons line lines ih =>
    rcases ih with hplain | ⟨before, header, after, name, rfl, hheader, hafter⟩
    · cases hline : Line.ofText line with
      | header name => exact .inr ⟨[], line, lines, name, rfl, hline, hplain⟩
      | _ => exact .inl (List.forall_mem_cons.2 ⟨by rw [hline]; rfl, hplain⟩)
    · exact .inr ⟨line :: before, header, after, name, rfl, hheader, hafter⟩

namespace Routing

variable {r : Routing}

/-- Without a header, lines stand where the first of them stands. -/
theorem standing_advance_of_plain (c : Cursor) {lines : List (List Char)}
    (h : ∀ line ∈ lines, (Line.ofText line).isHeader = false) :
    (r.advance c lines).standing = c.standing := by
  induction lines generalizing c with
  | nil => rfl
  | cons line lines ih =>
    have hline := h line (List.mem_cons_self ..)
    have hkept : (r.step c line).1.standing = c.standing := by
      rw [standing_step]
      cases hl : Line.ofText line with
      | header name => simp [hl, Line.isHeader] at hline
      | _ => rfl
    exact (ih _ fun l hl => h l (List.mem_cons_of_mem _ hl)).trans hkept

/-- The last header says where the lines below it stand. -/
theorem standing_advance_of_header (c : Cursor) {header : List Char} {name : String}
    (hheader : Line.ofText header = .header name) (before : List (List Char))
    {after : List (List Char)} (hafter : ∀ line ∈ after, (Line.ofText line).isHeader = false) :
    (r.advance c (before ++ header :: after)).standing = r.standing (r.advance c before) name := by
  have hstep : (r.step (r.advance c before) header).1.standing =
      r.standing (r.advance c before) name := by
    rw [standing_step, hheader]
    rfl
  have hsplit : r.advance c (before ++ header :: after) =
      r.advance (r.step (r.advance c before) header).1 after := advance_append r c before _
  rw [hsplit, standing_advance_of_plain _ hafter, hstep]

/-- Lines stand outside of sections until the first header. -/
theorem standing_advance_eq_outside_iff {lines : List (List Char)} :
    (r.advance {} lines).standing = .outside ↔
      ∀ line ∈ lines, (Line.ofText line).isHeader = false := by
  constructor
  · intro h
    rcases exists_last_header lines with
      hplain | ⟨before, header, after, name, rfl, hheader, hafter⟩
    · exact hplain
    · rw [standing_advance_of_header {} hheader before hafter, standing] at h
      split at h <;> cases h
  · exact standing_advance_of_plain {}

/-- Lines stand in a section if its header was the last one. -/
theorem standing_advance_eq_within_iff {lines : List (List Char)} {sectionName : String} :
    (r.advance {} lines).standing = .within sectionName ↔ r.Opens lines sectionName := by
  constructor
  · intro h
    rcases exists_last_header lines with
      hplain | ⟨before, header, after, name, rfl, hheader, hafter⟩
    · rw [standing_advance_of_plain {} hplain] at h
      cases h
    · rw [standing_advance_of_header {} hheader before hafter, standing] at h
      split at h
      · next hknown =>
        obtain rfl := Standing.within.inj h
        exact ⟨before, header, after, name, rfl, hheader, hafter, rfl, hknown⟩
      · cases h
  · rintro ⟨before, header, after, name, rfl, hheader, hafter, rfl, hknown⟩
    rw [standing_advance_of_header {} hheader before hafter, standing, if_pos hknown]

end Routing

namespace Document

variable {d : Document} {before : List (List Char)} {content name : String} {raw : Option String}
  {fault : Fault}

/-- A header is at fault if its name, after the migration, is that of no section. -/
theorem faulty_header_iff :
    d.Faulty before content (.header name) fault ↔
      d.routing.migratedName (d.routing.advance {} before) name ∉ d.routing.sections ∧
        ⟨.unknownSection, "ignoring unknown section identifier (\"" ++
          d.routing.migratedName (d.routing.advance {} before) name ++ "\")"⟩ = fault := by
  constructor
  · intro hfaulty
    cases hfaulty with
    | unknownSection htarget hunknown =>
      subst htarget
      exact ⟨hunknown, rfl⟩
  · rintro ⟨hunknown, rfl⟩
    exact .unknownSection rfl hunknown

/-- Before the first header only a version line has no fault. -/
theorem faulty_option_iff_of_outside
    (h : (d.routing.advance {} before).standing = .outside) :
    d.Faulty before content (.option name raw) fault ↔ name ≠ Line.versionName ∧
      ⟨.optionOutsideSection, "ignoring option outside section: " ++ content⟩ = fault := by
  constructor
  · intro hfaulty
    cases hfaulty with
    | outside hname hbefore => exact ⟨hname, rfl⟩
    | refused hopens hdelivers hfails =>
      rw [Routing.standing_advance_eq_within_iff.2 hopens] at h
      cases h
  · rintro ⟨hname, rfl⟩
    exact .outside hname (Routing.standing_advance_eq_outside_iff.1 h)

/-- Options of an unknown section go with its header, which has the fault. -/
theorem not_faulty_option_of_astray
    (h : (d.routing.advance {} before).standing = .astray) :
    ¬d.Faulty before content (.option name raw) fault := by
  intro hfaulty
  cases hfaulty with
  | outside hname hbefore =>
    rw [Routing.standing_advance_eq_outside_iff.2 hbefore] at h
    cases h
  | refused hopens hdelivers hfails =>
    rw [Routing.standing_advance_eq_within_iff.2 hopens] at h
    cases h

/-- An option line in a section is at fault if its delivery fails, and the failure says how. -/
theorem faulty_option_iff_of_within {sectionName : String}
    (h : (d.routing.advance {} before).standing = .within sectionName) :
    d.Faulty before content (.option name raw) fault ↔ ∃ l,
      d.routing.delivery? (d.routing.advance {} before) sectionName name (Line.value raw) =
        some l ∧ ∃ failure,
        ((d.upTo before).onSection sectionName fun s =>
          s.applyLine l.option l.value).result.2 = some (.error failure) ∧
        failure.fault sectionName content = fault := by
  constructor
  · intro hfaulty
    cases hfaulty with
    | outside hname hbefore =>
      rw [Routing.standing_advance_eq_outside_iff.2 hbefore] at h
      cases h
    | refused hopens hdelivers hfails =>
      rw [Routing.standing_advance_eq_within_iff.2 hopens] at h
      obtain rfl := Standing.within.inj h
      exact ⟨_, hdelivers, _, hfails, rfl⟩
  · rintro ⟨l, hdelivers, failure, hfails, rfl⟩
    exact .refused (Routing.standing_advance_eq_within_iff.1 h) hdelivers hfails

end Document

/-! ## What the user is told -/

/-- Whether an event tells the user of a faulty line. -/
def Event.tellsFault : Event → Bool
  | .warning text | .error text => "Warning:".toList.isPrefixOf text.toList
  | _ => false

/-- The user is told of no faulty line. -/
def Quiet (es : List Event) : Prop :=
  ∀ x ∈ es, x.tellsFault = false

/-- Where nothing happens, the user is told of no fault. -/
theorem quiet_nil : Quiet [] :=
  List.forall_mem_nil _

/-- An event that tells of no fault is quiet by itself. -/
theorem quiet_singleton {x : Event} (h : x.tellsFault = false) : Quiet [x] :=
  List.forall_mem_singleton.2 h

/-- Two quiet parts are quiet together. -/
theorem Quiet.append {es fs : List Event} (he : Quiet es) (hf : Quiet fs) : Quiet (es ++ fs) :=
  List.forall_mem_append.2 ⟨he, hf⟩

/-- None of the events tells of a fault. -/
theorem Quiet.filter_eq {es : List Event} (h : Quiet es) : es.filter Event.tellsFault = [] :=
  List.filter_eq_nil_iff.2 fun x hx => by simp [h x hx]

/-- A section's own work tells the user nothing. -/
theorem Own.quiet {es : List Event} (h : Own es) : Quiet es := by
  intro x hx
  have hown := h x hx
  cases x <;> first | rfl | cases hown

/-- A migration tells of no fault. -/
theorem Migration.quiet_run (m : Migration) (line : LineData) : Quiet (m.run line).events := by
  cases m with
  | single revise => exact (quiet_singleton rfl).append quiet_nil
  | chain steps =>
    show Quiet (Chain.run steps line).events
    induction steps generalizing line with
    | nil => exact quiet_nil
    | cons step steps ih =>
      unfold Chain.run
      split
      · exact ih line
      · refine (quiet_singleton rfl).append ?_
        dsimp only
        split
        · exact (quiet_singleton rfl).append quiet_nil
        · exact ih _

/-- A backup is not about a line. -/
theorem Backup.quiet_make (disk : Disk) (path : String) : Quiet (make disk path).events :=
  forall_mem_events_make disk (fun _ => by simp [Event.tellsFault, List.isPrefixOf])
    (fun _ => rfl) (by simp [Event.tellsFault, List.isPrefixOf])

/-- The message of a fault tells of it. -/
theorem Fault.tellsFault_message (fault : Fault) (origin : String) (number : Nat) :
    (fault.message origin number).tellsFault = true := by
  simp [Fault.message, Event.tellsFault, List.isPrefixOf]

namespace Intake

/-- A migration is no fault, and the word that a text is older is not about a line. -/
theorem quiet_migrate (t : Intake) (origin : String) (line : LineData) :
    Quiet (t.migrate origin line).events := by
  have htold : Quiet [t.document.routing.announcement origin t.document.versionRead] :=
    quiet_singleton (by simp [Routing.announcement, Event.tellsFault, List.isPrefixOf])
  have hrun (m : Migration) : Quiet ((m.run line).events ++ []) :=
    (m.quiet_run line).append quiet_nil
  unfold Intake.migrate
  by_cases hversion : t.document.version ≤ t.document.versionRead
  · rw [if_pos hversion]
    exact quiet_nil
  · rw [if_neg hversion]
    cases ha : t.announced <;> cases hm : t.document.migration <;> simp only [hm]
    · exact htold.append quiet_nil
    · next m => exact htold.append (hrun m)
    · exact quiet_nil
    · next m => exact hrun m

/-- What a part of the reading takes down for a line: the fault that it has, if any. -/
structure Finds (t : Intake) (origin line : String) (f : Option Fault) (x : Traced Intake) :
    Prop where
  linesRead : x.result.linesRead = t.linesRead
  warnings : x.result.warnings =
    t.warnings ++ f.toList.map fun fault => ⟨t.linesRead, fault.kind, line⟩
  messages : x.events.filter Event.tellsFault =
    f.toList.map fun fault => fault.message origin t.linesRead

variable {t : Intake} {origin line : String}

/-- A part that finds nothing. -/
theorem finds_nothing {x : Traced Intake} (hevents : Quiet x.events)
    (hlinesRead : x.result.linesRead = t.linesRead) (hwarnings : x.result.warnings = t.warnings) :
    t.Finds origin line none x :=
  ⟨hlinesRead, by simp [hwarnings], by simp [hevents.filter_eq]⟩

/-- The warning of a dropped line is its fault. -/
theorem finds_warn {u : Intake} (hlinesRead : u.linesRead = t.linesRead)
    (hwarnings : u.warnings = t.warnings) {kind : WarningKind} {reason : String} :
    t.Finds origin line (some ⟨kind, reason⟩) (u.warn origin kind line reason) where
  linesRead := hlinesRead
  warnings := by
    rw [← hlinesRead, ← hwarnings]
    rfl
  messages := by
    have hmessage := Fault.tellsFault_message ⟨kind, reason⟩ origin u.linesRead
    rw [← hlinesRead]
    exact List.filter_cons_of_pos hmessage

/-- A part that begins quietly finds what its rest finds. -/
theorem Finds.bind {α : Type} {x : Traced α} {g : α → Traced Intake} {f : Option Fault}
    (hquiet : Quiet x.events) (h : t.Finds origin line f (g x.result)) :
    t.Finds origin line f (x >>= g) where
  linesRead := h.linesRead
  warnings := h.warnings
  messages := by
    rw [Traced.events_bind, List.filter_append, hquiet.filter_eq, List.nil_append, h.messages]

/-- The same with what is known of the fault. -/
theorem exists_finds_bind {α : Type} {x : Traced α} {g : α → Traced Intake}
    {p : Option Fault → Prop} (hquiet : Quiet x.events)
    (h : ∃ f, t.Finds origin line f (g x.result) ∧ p f) :
    ∃ f, t.Finds origin line f (x >>= g) ∧ p f :=
  h.imp fun _ h => h.imp_left (Finds.bind hquiet)

/-- Of a header it is found that its section is unknown. -/
theorem finds_openSection (t : Intake) (origin line name : String) :
    t.Finds origin line
      (if t.document.routing.migratedName t.cursor name ∈ t.document.routing.sections then none
        else some ⟨.unknownSection, "ignoring unknown section identifier (\"" ++
          t.document.routing.migratedName t.cursor name ++ "\")"⟩)
      (t.openSection origin line name) := by
  obtain ⟨announced, hmigrate⟩ := migrate_result t origin (t.lineData name none none)
  have hdata : t.document.routing.lineData t.cursor name none none =
      t.lineData name none none := rfl
  unfold openSection Routing.migratedName
  refine Finds.bind (t.quiet_migrate origin _) ?_
  rw [hmigrate, hdata]
  generalize t.document.routing.migrate t.cursor (t.lineData name none none) = data
  dsimp only
  generalize (if data.sectionName = "" then name else data.sectionName) = target
  have hknown : (t.document.section? target).isSome ↔ target ∈ t.document.routing.sections :=
    Roster.isSome_find?_iff
  cases hs : t.document.section? target with
  | some s =>
    rw [if_pos (hknown.1 (by rw [hs]; rfl))]
    exact finds_nothing quiet_nil rfl rfl
  | none =>
    rw [if_neg fun h => by simpa [hs] using hknown.2 h]
    exact finds_warn (by rfl) (by rfl)

/-- A version line may reject the file, but it is not dropped. -/
theorem finds_takeVersion (t : Intake) (origin line : String) (raw : Option String) :
    t.Finds origin line none (t.takeVersion origin line raw) := by
  have hcomplain (reason : String) : Quiet ([.error ("Error: " ++ reason ++
      " => rest of file is IGNORED, default options are used")] ++ []) :=
    (quiet_singleton (by simp [Event.tellsFault, List.isPrefixOf])).append quiet_nil
  unfold takeVersion
  split
  · exact finds_nothing (hcomplain _) rfl rfl
  · dsimp only
    split
    · exact finds_nothing quiet_nil rfl rfl
    · exact finds_nothing (hcomplain _) rfl rfl

/-- Of an option line it is found that its section fails to apply what the line delivers. -/
theorem exists_finds_takeOption (t : Intake) (origin line sectionName name : String)
    (value : Option String) :
    ∃ f, t.Finds origin line f (t.takeOption origin line sectionName name value) ∧
      ∀ fault, f = some fault ↔ ∃ l,
        t.document.routing.delivery? t.cursor sectionName name value = some l ∧ ∃ failure,
          (t.document.onSection sectionName fun s =>
            s.applyLine l.option l.value).result.2 = some (.error failure) ∧
          failure.fault sectionName line = fault := by
  obtain ⟨announced, hmigrate⟩ :=
    migrate_result t origin (t.lineData sectionName (some name) value)
  have hquiet := t.quiet_migrate origin (t.lineData sectionName (some name) value)
  have hdata : t.document.routing.lineData t.cursor sectionName (some name) value =
      t.lineData sectionName (some name) value := rfl
  unfold takeOption Routing.delivery?
  rw [hdata]
  generalize t.document.routing.migrate t.cursor _ = data at hmigrate ⊢
  -- The migration comes first, and it tells of no fault.
  refine exists_finds_bind hquiet ?_
  rw [hmigrate]
  dsimp only
  by_cases hempty : data.option.getD "" = ""
  · rw [if_pos hempty, if_pos hempty]
    exact ⟨none, finds_nothing quiet_nil rfl rfl, by simp⟩
  · rw [if_neg hempty, if_neg hempty]
    have hquietly := (t.document.own_onSection sectionName fun s =>
      s.own_applyLine (data.option.getD "") data.value).quiet
    refine exists_finds_bind hquietly ?_
    simp only [Option.some.injEq, exists_eq_left']
    -- From here on only the section's answer counts: an unknown option, another failure, or none.
    generalize (t.document.onSection sectionName _).result = x
    split
    · next hanswer =>
      refine ⟨_, finds_warn (by rfl) (by rfl), fun fault => ?_⟩
      simp [hanswer, Failure.fault]
    · next failure hother hanswer =>
      have hfault : failure.fault sectionName line = ⟨.invalidValue,
          "ignoring invalid value for option in section \"" ++ sectionName ++ "\": " ++ line⟩ := by
        cases failure with
        | unknownOption a b => exact (hother a b rfl).elim
        | _ => rfl
      refine ⟨_, Finds.bind (quiet_singleton rfl) (finds_warn (by rfl) (by rfl)), fun fault => ?_⟩
      simp [hanswer, hfault]
    · next hnone =>
      refine ⟨none, finds_nothing quiet_nil rfl rfl, fun fault => ?_⟩
      simp only [reduceCtorEq, false_iff]
      rintro ⟨failure, hanswer, -⟩
      exact hnone failure hanswer

/-! ## One line -/

/-- A state after lines of which none has rejected the file. -/
structure Follows (d : Document) (before : List (List Char)) (t : Intake) : Prop where
  cursor : t.cursor = d.routing.advance {} before
  document : t.document = d.upTo before

namespace Follows

variable {d : Document} {before : List (List Char)}

/-- The reading starts with no line before it. -/
theorem start (d : Document) : Follows d [] { document := { d with versionRead := 1 } } :=
  ⟨rfl, rfl⟩

/-- Where lines go is decided by the file as it was at the start. -/
theorem routing_eq (h : t.Follows d before) : t.document.routing = d.routing := by
  rw [h.document, Document.upTo, Document.routing_accept]

/-- Where the next line stands, the lines before it say. -/
theorem standing_eq (h : t.Follows d before) :
    t.standing = (d.routing.advance {} before).standing :=
  congrArg Cursor.standing h.cursor

/-- A line that does not reject the file is one of those before the next. -/
theorem takeLine (h : t.Follows d before) {text : List Char}
    (hrejected : (t.takeLine origin text).result.rejected = none) :
    (t.takeLine origin text).result.Follows d (before ++ [text]) := by
  obtain ⟨hcursor, hdocument⟩ := takeLine_spec t origin text hrejected
  rw [h.routing_eq, h.cursor] at hcursor hdocument
  have hadvance : d.routing.advance {} (before ++ [text]) =
      (d.routing.step (d.routing.advance {} before) text).1 := Routing.advance_append ..
  have hdeliveries : d.routing.deliveries {} (before ++ [text]) = d.routing.deliveries {} before ++
      (d.routing.step (d.routing.advance {} before) text).2.toList := by
    rw [Routing.deliveries_append]
    exact congrArg _ (List.append_nil _)
  refine ⟨hcursor.trans hadvance.symm, ?_⟩
  rw [hdocument, h.document, Document.upTo, Document.upTo, Document.accept_accept, hadvance,
    hdeliveries]

/-- A line has one fault at most, and it is what is found. -/
theorem exists_finds (h : t.Follows d before) (origin : String) (text : List Char) :
    ∃ f, { t with linesRead := t.linesRead + 1 : Intake }.Finds origin
        (String.ofList (Line.content text)) f (t.takeLine origin text) ∧
      ∀ fault, f = some fault ↔
        d.Faulty before (String.ofList (Line.content text)) (Line.ofText text) fault := by
  unfold Intake.takeLine
  -- The line is counted first, and the state still follows the lines before it.
  have hcounted : { t with linesRead := t.linesRead + 1 : Intake }.Follows d before :=
    ⟨h.cursor, h.document⟩
  generalize { t with linesRead := t.linesRead + 1 : Intake } = u at hcounted ⊢
  generalize String.ofList (Line.content text) = content
  have hstanding := hcounted.standing_eq
  dsimp only
  cases Line.ofText text with
  | skipped => exact ⟨none, finds_nothing quiet_nil rfl rfl, fun fault => ⟨nofun, nofun⟩⟩
  | unclosedHeader =>
    refine ⟨_, finds_warn (by rfl) (by rfl), fun fault => ⟨?_, ?_⟩⟩
    · rintro ⟨⟩
      exact .missingBracket
    · rintro ⟨⟩
      rfl
  | header name =>
    refine ⟨_, finds_openSection u origin content name, fun fault => ?_⟩
    rw [hcounted.routing_eq, hcounted.cursor, Document.faulty_header_iff]
    split
    · next hknown => simp [hknown]
    · next hunknown => simp [hunknown]
  | option name raw =>
    dsimp only
    cases hu : u.standing with
    | outside =>
      dsimp only
      rw [hu] at hstanding
      simp only [Document.faulty_option_iff_of_outside hstanding.symm]
      by_cases hname : name = Line.versionName
      · rw [if_pos hname]
        exact ⟨none, finds_takeVersion .., by simp [hname]⟩
      · rw [if_neg hname]
        exact ⟨_, finds_warn (by rfl) (by rfl), by simp [hname]⟩
    | astray =>
      rw [hu] at hstanding
      refine ⟨none, finds_nothing (quiet_singleton rfl) rfl rfl, fun fault => ?_⟩
      simp [Document.not_faulty_option_of_astray hstanding.symm]
    | within sectionName =>
      rw [hu] at hstanding
      have hfinds := u.exists_finds_takeOption origin content sectionName name (Line.value raw)
      simp only [hcounted.routing_eq, hcounted.cursor] at hfinds
      simp only [hcounted.document] at hfinds
      simp only [Document.faulty_option_iff_of_within hstanding.symm]
      exact hfinds

end Follows

end Intake

/-! ## All lines -/

/-- A fault that the line of a number has, with what is looked at of the line. -/
structure Finding where
  number : Nat
  text : String
  fault : Fault

/-- What the report says of a fault. -/
def Finding.warning (x : Finding) : Warning :=
  ⟨x.number, x.fault.kind, x.text⟩

/-- What the user is told of a fault. -/
def Finding.message (origin : String) (x : Finding) : Event :=
  x.fault.message origin x.number

namespace Document

variable {d : Document} {lines : List (List Char)}

/-- A fault is that of a line among lines. -/
def HasFault (d : Document) (lines : List (List Char)) (x : Finding) : Prop :=
  ∃ before line after, lines = before ++ line :: after ∧ x.number = before.length + 1 ∧
    x.text = String.ofList (Line.content line) ∧
    d.Faulty before x.text (Line.ofText line) x.fault

/-- Lines are counted from one. -/
theorem HasFault.number_pos {x : Finding} (h : d.HasFault lines x) : 0 < x.number := by
  obtain ⟨before, line, after, -, hnumber, -⟩ := h
  omega

/-- The faults of the lines after the first so many, up to the last one that was read, in the order
of the lines. -/
structure ListsFaults (d : Document) (lines : List (List Char)) (first last : Nat)
    (findings : List Finding) : Prop where
  increasing : findings.Pairwise fun x y => x.number < y.number
  mem_iff : ∀ x, x ∈ findings ↔ (first < x.number ∧ x.number ≤ last) ∧ d.HasFault lines x

/-- No lines have no faults. -/
theorem listsFaults_nil (d : Document) (lines : List (List Char)) (first : Nat) :
    d.ListsFaults lines first first [] where
  increasing := .nil
  mem_iff x := by
    simp only [List.not_mem_nil, false_iff]
    rintro ⟨⟨hfirst, hlast⟩, -⟩
    omega

/-- The faults of one part of the lines, and those of the next one. -/
theorem ListsFaults.append {first middle last : Nat} {xs ys : List Finding}
    (hxs : d.ListsFaults lines first middle xs) (hys : d.ListsFaults lines middle last ys)
    (hfirst : first ≤ middle) (hlast : middle ≤ last) :
    d.ListsFaults lines first last (xs ++ ys) where
  increasing := by
    refine List.pairwise_append.2 ⟨hxs.increasing, hys.increasing, fun x hx y hy => ?_⟩
    have hbelow := ((hxs.mem_iff x).1 hx).1.2
    have habove := ((hys.mem_iff y).1 hy).1.1
    omega
  mem_iff x := by
    rw [List.mem_append, hxs.mem_iff, hys.mem_iff, ← or_and_right]
    refine and_congr_left fun _ => ?_
    omega

/-- The fault of one line. -/
theorem listsFaults_one {before after : List (List Char)} {line : List Char} {f : Option Fault}
    (h : ∀ fault, f = some fault ↔
      d.Faulty before (String.ofList (Line.content line)) (Line.ofText line) fault) :
    d.ListsFaults (before ++ line :: after) before.length (before.length + 1)
      (f.toList.map (Finding.mk (before.length + 1) (String.ofList (Line.content line)))) where
  increasing := by cases f <;> simp
  mem_iff x := by
    simp only [List.mem_map, Option.mem_toList, h]
    constructor
    · rintro ⟨fault, hfault, rfl⟩
      exact ⟨⟨Nat.lt_succ_self _, le_rfl⟩, before, line, after, rfl, rfl, rfl, hfault⟩
    · rintro ⟨⟨hfirst, hlast⟩, before', line', after', hlines, hnumber, htext, hfault⟩
      -- The number says which line it is.
      obtain ⟨rfl, hrest⟩ := List.append_inj hlines (by omega)
      obtain ⟨rfl, rfl⟩ := List.cons.inj hrest
      obtain ⟨number, text, fault⟩ := x
      subst hnumber htext
      exact ⟨fault, hfault, rfl⟩

end Document

namespace Intake

/-- What a part of the reading takes down: the faults of the lines that it reads. -/
structure FindsAll (t : Intake) (d : Document) (origin : String) (lines : List (List Char))
    (findings : List Finding) (x : Traced Intake) : Prop where
  linesRead : t.linesRead ≤ x.result.linesRead
  faults : d.ListsFaults lines t.linesRead x.result.linesRead findings
  warnings : x.result.warnings = t.warnings ++ findings.map Finding.warning
  messages : x.events.filter Event.tellsFault = findings.map (Finding.message origin)

variable {d : Document} {t : Intake} {origin : String} {before lines : List (List Char)}

/-- Where nothing is read, nothing is found. -/
theorem findsAll_pure (t : Intake) (d : Document) (origin : String) (lines : List (List Char)) :
    t.FindsAll d origin lines [] (pure t) where
  linesRead := le_rfl
  faults := d.listsFaults_nil lines t.linesRead
  warnings := (List.append_nil _).symm
  messages := rfl

/-- Two parts of the reading find what each of them finds. -/
theorem FindsAll.bind {xs ys : List Finding} {x : Traced Intake} {g : Intake → Traced Intake}
    (hx : t.FindsAll d origin lines xs x) (hg : x.result.FindsAll d origin lines ys (g x.result)) :
    t.FindsAll d origin lines (xs ++ ys) (x >>= g) where
  linesRead := hx.linesRead.trans hg.linesRead
  faults := hx.faults.append hg.faults hx.linesRead hg.linesRead
  warnings := by
    rw [Traced.result_bind, hg.warnings, hx.warnings, List.map_append, List.append_assoc]
  messages := by
    rw [Traced.events_bind, List.filter_append, hx.messages, hg.messages, List.map_append]

/-- One line is read, and its fault is found. -/
theorem Follows.exists_findsAll_takeLine (h : t.Follows d before)
    (hread : t.linesRead = before.length) (origin : String) (line : List Char)
    (after : List (List Char)) :
    (t.takeLine origin line).result.linesRead = before.length + 1 ∧
      ∃ findings, t.FindsAll d origin (before ++ line :: after) findings
        (t.takeLine origin line) := by
  obtain ⟨f, hfinds, hfault⟩ := h.exists_finds origin line
  have hnumber : (t.takeLine origin line).result.linesRead = before.length + 1 :=
    hfinds.linesRead.trans (congrArg (· + 1) hread)
  refine ⟨hnumber,
    f.toList.map (Finding.mk (before.length + 1) (String.ofList (Line.content line))), ?_⟩
  exact {
    linesRead := by omega
    faults := by
      rw [hnumber, hread]
      exact Document.listsFaults_one hfault
    warnings := by
      rw [hfinds.warnings, List.map_map, ← hread]
      rfl
    messages := by
      rw [hfinds.messages, List.map_map, ← hread]
      rfl }

/-- All lines are read, unless one of them rejects the file, and the faults of those that are read
are found. The induction is on the lines, and it carries the lines that were read before. -/
theorem Follows.exists_findsAll_takeLines (h : t.Follows d before)
    (hread : t.linesRead = before.length) (origin : String) (lines : List (List Char)) :
    ((takeLines origin lines t).result.rejected = none →
        (takeLines origin lines t).result.linesRead = (before ++ lines).length) ∧
      ∃ findings, t.FindsAll d origin (before ++ lines) findings (takeLines origin lines t) := by
  induction lines generalizing before t with
  | nil =>
    refine ⟨fun _ => ?_, [], findsAll_pure ..⟩
    rw [List.append_nil]
    exact hread
  | cons line lines ih =>
    obtain ⟨hnumber, found, hfound⟩ := h.exists_findsAll_takeLine hread origin line lines
    simp only [takeLines, Traced.result_bind]
    by_cases hstops : (t.takeLine origin line).result.rejected.isSome
    · rw [if_pos hstops]
      refine ⟨fun hgoes => ?_, found ++ [], hfound.bind ?_⟩
      · rw [Traced.result_pure] at hgoes
        simp [hgoes] at hstops
      · rw [if_pos hstops]
        exact findsAll_pure ..
    · rw [if_neg hstops]
      obtain ⟨hcount, findings, hrest⟩ := ih (h.takeLine (by simpa using hstops))
        (hnumber.trans (by simp))
      rw [List.append_assoc, List.singleton_append] at hcount hrest
      refine ⟨hcount, found ++ findings, hfound.bind ?_⟩
      rw [if_neg hstops]
      exact hrest

end Intake

/-! ## A text -/

/-- The number of lines: each line feed ends one, and what is left after the last line feed is one
if it is not empty. -/
def lineCount (bytes : List UInt8) : Nat :=
  bytes.count 10 + if bytes = [] ∨ bytes.getLast? = some 10 then 0 else 1

/-- There are as many lines as line feeds and an unfinished last line make. -/
theorem length_linesOf (bytes : List UInt8) : (linesOf bytes).length = lineCount bytes := by
  induction bytes with
  | nil => rfl
  | cons b bytes ih =>
    unfold lineCount at ih ⊢
    unfold linesOf
    by_cases hb : b = 10
    · subst hb
      cases bytes with
      | nil => rfl
      | cons c bytes =>
        rw [if_pos rfl, List.length_cons, ih, List.count_cons_self, List.getLast?_cons_cons]
        simp only [reduceCtorEq, false_or]
        omega
    · rw [if_neg hb, List.count_cons_of_ne hb]
      cases bytes with
      | nil => simp [linesOf, hb]
      | cons c bytes =>
        -- The byte belongs to the line after it, of which there is one.
        have hne := linesOf_ne_nil (List.cons_ne_nil c bytes)
        rw [List.getLast?_cons_cons]
        simp only [reduceCtorEq, false_or] at ih ⊢
        rw [← ih]
        split
        · next line lines hlines => simp [hlines]
        · next hnil => exact absurd hnil hne

namespace Document

/-- The report of a text and the faults of its lines. -/
structure Accounted (d : Document) (origin : String) (bytes : List UInt8) (findings : List Finding)
    (x : Traced (OnDisk Document Report)) : Prop where
  /-- Without a rejection all lines are read. -/
  all : x.result.2.2.rejected = none → x.result.2.2.linesRead = lineCount bytes
  /-- Otherwise the line that is read last is a version line, and it gives the reason of the
  rejection. The lines before it open no section, and their versions are not refused. -/
  last : ∀ failure, x.result.2.2.rejected = some failure →
    ∃ before line after raw, linesOf bytes = before ++ line :: after ∧
      (∀ l ∈ before, d.Passes origin (Line.ofText (Utf8.decode l))) ∧
      Line.ofText (Utf8.decode line) = .option Line.versionName raw ∧
      d.refusal? origin raw = some failure ∧ x.result.2.2.linesRead = before.length + 1
  /-- The faults are in the order of the lines, and no line has two. -/
  increasing : findings.Pairwise fun f g => f.number < g.number
  range : ∀ f ∈ findings, 1 ≤ f.number ∧ f.number ≤ x.result.2.2.linesRead
  /-- They are those of the lines that are read, and all of those. -/
  faults : ∀ f, f ∈ findings ↔
    f.number ≤ x.result.2.2.linesRead ∧ d.HasFault ((linesOf bytes).map Utf8.decode) f
  /-- The report has one warning for each of them. -/
  warnings : x.result.2.2.warnings = findings.map Finding.warning
  /-- The user is told each of them once. -/
  messages : x.events.filter Event.tellsFault = findings.map (Finding.message origin)

/-- After the lines of a text the user is told of no other faulty line. -/
theorem filter_tellsFault_parse (d : Document) (disk : Disk) (origin : String)
    (bytes : List UInt8) :
    (d.parse disk origin bytes).events.filter Event.tellsFault =
      (d.takeIn origin bytes).events.filter Event.tellsFault := by
  unfold parse
  rw [Traced.events_bind, List.filter_append]
  split
  · rw [Traced.events_bind, List.filter_append, (Backup.quiet_make disk origin).filter_eq]
    exact List.append_nil _
  · exact List.append_nil _

/-- Each line that is read and dropped for a fault has its warning and its message, and no other
line has any. -/
theorem accounted_of_parse (d : Document) (disk : Disk) (origin : String) (bytes : List UInt8) :
    ∃ findings, d.Accounted origin bytes findings (d.parse disk origin bytes) := by
  obtain ⟨hall, findings, hfound⟩ :=
    (Intake.Follows.start d).exists_findsAll_takeLines rfl origin ((linesOf bytes).map Utf8.decode)
  have hfaults := hfound.faults.mem_iff
  obtain ⟨backup, hreport⟩ := d.exists_report_parse disk origin bytes
  exact ⟨findings, {
    all := by
      rw [hreport]
      intro hgoes
      rw [← length_linesOf]
      exact (hall hgoes).trans (List.length_map _)
    last := by
      intro failure hfailure
      obtain ⟨before, line, after, raw, failure', hlines, hbefore, hline, hrefusal, hrejected,
        hcount⟩ := (rejection_of_parse (Option.isSome_of_mem hfailure)).last
      obtain rfl := Option.some.inj (hfailure.symm.trans hrejected)
      exact ⟨before, line, after, raw, hlines, hbefore, hline, hrefusal, hcount⟩
    increasing := hfound.faults.increasing
    range := by
      rw [hreport]
      exact fun f hf => ((hfaults f).1 hf).1
    faults := by
      rw [hreport]
      exact fun f => (hfaults f).trans
        ⟨fun h => ⟨h.1.2, h.2⟩, fun h => ⟨⟨h.2.number_pos, h.1⟩, h.2⟩⟩
    warnings := by
      rw [hreport]
      exact hfound.warnings
    messages := (d.filter_tellsFault_parse disk origin bytes).trans hfound.messages }⟩

/-- A bad line of each kind. The line for the depth below the unknown header has no warning of its
own, and the empty line and the last one have none. -/
example :
    (stocked.parse {} "" (Utf8.encode
      ("depth = 1\r\n  [look\n[lost]\ndepth = 2\n\n[look]\ndepth = deep\ngirth = 3\ndepth = 3"
        ).toList)).result.2.2.warnings =
      [⟨1, .optionOutsideSection, "depth = 1"⟩, ⟨2, .missingBracket, "[look"⟩,
        ⟨3, .unknownSection, "[lost]"⟩, ⟨7, .invalidValue, "depth = deep"⟩,
        ⟨8, .unknownOption, "girth = 3"⟩] := by
  decide +kernel

end Document

end TypedConfig
