import TypedConfig.Proofs.Backups
import TypedConfig.Proofs.Reload

/-!
# What a rejected file does

A version line counts only before the first header of a section, and until then no line reaches an
option or a migration. So a text that is rejected has done nothing but give messages when the
version line is met that rejects it (`Intake.exists_refused_line`): the file is what it was but for
the version that was read, and the disk has one file more, the copy of the rejected one
(`Document.Rejection`). In a reload all options that are not left to a read hook go back to their
default values, since no line has reached them.
-/

namespace TypedConfig

/-- Whether an event is a message or a log record: no hook is called, and no value is published. -/
def Event.isMessage : Event → Bool
  | .warning _ | .error _ | .record .. => true
  | _ => false

/-- Nothing happens but that the user is told and the log is written. -/
def OnlyMessages (es : List Event) : Prop :=
  ∀ x ∈ es, x.isMessage = true

/-- Where nothing happens, only messages are given. -/
theorem onlyMessages_nil : OnlyMessages [] :=
  List.forall_mem_nil _

/-- A message alone is only a message. -/
theorem onlyMessages_singleton {x : Event} (h : x.isMessage = true) : OnlyMessages [x] :=
  List.forall_mem_singleton.2 h

/-- Two parts with only messages have only messages. -/
theorem OnlyMessages.append {es fs : List Event} (he : OnlyMessages es) (hf : OnlyMessages fs) :
    OnlyMessages (es ++ fs) :=
  List.forall_mem_append.2 ⟨he, hf⟩

namespace Document

/-- Why a version line rejects the file, if it does: it names none, or one above the file's. -/
def refusal? (d : Document) (origin : String) (raw : Option String) : Option Failure :=
  match Line.version? raw with
  | none => some (.invalidVersion origin (raw.getD ""))
  | some version =>
    if version ≤ d.version then none else some (.versionTooNew origin version d.version)

/-- Whether a line leaves the reading before the first header: it opens no section and does not
reject the file. -/
def Passes (d : Document) (origin : String) : Line → Prop
  | .header _ => False
  | .option name raw => name = Line.versionName → d.refusal? origin raw = none
  | .skipped => True
  | .unclosedHeader => True

end Document

namespace Intake

/-- A state before the first header, in which the file is what it was but for the version. -/
structure Outside (d : Document) (t : Intake) : Prop where
  standing : t.standing = .outside
  document : ∃ versionRead, t.document = { d with versionRead }
  warnings : ∀ w ∈ t.warnings, w.kind = .missingBracket ∨ w.kind = .optionOutsideSection

/-! ## Below a header -/

/-- A header never rejects the file, and its section is known or not. -/
theorem openSection_inside (t : Intake) (origin line name : String) :
    (t.openSection origin line name).result.rejected = t.rejected ∧
      (t.openSection origin line name).result.standing ≠ .outside := by
  obtain ⟨announced, hmigrate⟩ := migrate_result t origin (t.lineData name none none)
  constructor
  · unfold openSection
    simp only [Traced.result_bind, hmigrate]
    split <;> rfl
  · rw [(openSection_spec t origin line name).2]
    unfold Routing.standing
    -- Whatever name the migrations have led to, it is that of a section or of none that is known.
    split
    · exact Standing.noConfusion
    · exact Standing.noConfusion

/-- An option line rejects no text. -/
theorem rejected_takeOption (t : Intake) (origin line sectionName name : String)
    (value : Option String) :
    (t.takeOption origin line sectionName name value).result.rejected = t.rejected := by
  obtain ⟨announced, hmigrate⟩ :=
    migrate_result t origin (t.lineData sectionName (some name) value)
  unfold takeOption
  simp only [Traced.result_bind, hmigrate]
  split
  · rfl
  · simp only [Traced.result_bind]
    split <;> rfl

/-- Once a header was met, no line rejects the file. -/
theorem takeLine_inside {t : Intake} (h : t.standing ≠ .outside) (origin : String)
    (text : List Char) :
    (t.takeLine origin text).result.rejected = t.rejected ∧
      (t.takeLine origin text).result.standing ≠ .outside := by
  unfold takeLine
  -- The line is counted first, which changes neither.
  have hrejected : t.rejected = { t with linesRead := t.linesRead + 1 : Intake }.rejected := rfl
  have hstanding : { t with linesRead := t.linesRead + 1 : Intake }.standing ≠ .outside := h
  rw [hrejected]
  generalize { t with linesRead := t.linesRead + 1 : Intake } = u at hstanding ⊢
  dsimp only
  split
  · exact ⟨rfl, hstanding⟩
  · exact ⟨rfl, hstanding⟩
  · exact openSection_inside u origin _ _
  · split
    · next hout => exact absurd hout hstanding
    · exact ⟨rfl, hstanding⟩
    · next sectionName hin =>
      refine ⟨rejected_takeOption u origin _ sectionName _ _, ?_⟩
      rw [(takeOption_spec u origin _ sectionName _ _).2]
      exact hstanding

/-- Below a header no line rejects the text. -/
theorem takeLines_inside (origin : String) (lines : List (List Char)) {t : Intake}
    (h : t.standing ≠ .outside) :
    (takeLines origin lines t).result.rejected = t.rejected := by
  induction lines generalizing t with
  | nil => rfl
  | cons line lines ih =>
    obtain ⟨hrejected, hstanding⟩ := takeLine_inside h origin line
    simp only [takeLines, Traced.result_bind]
    split
    · exact hrejected
    · exact (ih hstanding).trans hrejected

/-! ## Before the first header -/

/-- A bad line is dropped with a warning of its kind. -/
theorem Outside.warn {d : Document} {t : Intake} (h : t.Outside d) (origin : String)
    {kind : WarningKind} (hkind : kind = .missingBracket ∨ kind = .optionOutsideSection)
    (line reason : String) : (t.warn origin kind line reason).result.Outside d where
  standing := h.standing
  document := h.document
  warnings := by
    intro w hw
    rcases List.mem_append.1 hw with hw | hw
    · exact h.warnings w hw
    · rw [List.mem_singleton.1 hw]
      exact hkind

/-- A version line sets the version that was read and may reject the file. -/
theorem Outside.takeVersion {d : Document} {t : Intake} (h : t.Outside d)
    (hrejected : t.rejected = none) (origin line : String) (raw : Option String) :
    (t.takeVersion origin line raw).result.Outside d ∧
      OnlyMessages (t.takeVersion origin line raw).events ∧
      (t.takeVersion origin line raw).result.linesRead = t.linesRead ∧
      (t.takeVersion origin line raw).result.rejected = d.refusal? origin raw := by
  obtain ⟨document, standing, announced, linesRead, warnings, rejected⟩ := t
  obtain ⟨hstanding, ⟨versionRead, hdocument⟩, hwarnings⟩ := h
  dsimp only at hdocument
  subst hdocument
  have hcomplain (text : String) : OnlyMessages ([Event.error text] ++ []) :=
    (onlyMessages_singleton rfl).append onlyMessages_nil
  unfold Intake.takeVersion Document.refusal?
  cases Line.version? raw with
  | none => exact ⟨⟨hstanding, ⟨versionRead, rfl⟩, hwarnings⟩, hcomplain _, rfl, rfl⟩
  | some version =>
    dsimp only
    by_cases hle : version ≤ d.version
    · rw [if_pos hle, if_pos hle]
      exact ⟨⟨hstanding, ⟨version, rfl⟩, hwarnings⟩, onlyMessages_nil, rfl, hrejected⟩
    · rw [if_neg hle, if_neg hle]
      exact ⟨⟨hstanding, ⟨version, rfl⟩, hwarnings⟩, hcomplain _, rfl, rfl⟩

/-- What a line does before the first header: it is this header, it passes with no more than a
warning, or it is the version line that rejects the file. -/
theorem Outside.takeLine_cases {d : Document} {t : Intake} (h : t.Outside d)
    (hrejected : t.rejected = none) (origin : String) (text : List Char) :
    ((t.takeLine origin text).result.rejected = none ∧
        (t.takeLine origin text).result.standing ≠ .outside) ∨
      ((t.takeLine origin text).result.Outside d ∧
        OnlyMessages (t.takeLine origin text).events ∧
        (t.takeLine origin text).result.linesRead = t.linesRead + 1 ∧
        ((d.Passes origin (Line.ofText text) ∧ (t.takeLine origin text).result.rejected = none) ∨
          ∃ raw failure, Line.ofText text = .option Line.versionName raw ∧
            d.refusal? origin raw = some failure ∧
            (t.takeLine origin text).result.rejected = some failure)) := by
  have hwarn (text : String) : OnlyMessages ([Event.warning text] ++ []) :=
    (onlyMessages_singleton rfl).append onlyMessages_nil
  unfold Intake.takeLine
  -- The line is counted first, which leaves the state before the first header.
  have hlines : t.linesRead + 1 = { t with linesRead := t.linesRead + 1 : Intake }.linesRead := rfl
  have hout : { t with linesRead := t.linesRead + 1 : Intake }.Outside d :=
    ⟨h.standing, h.document, h.warnings⟩
  have hnone : { t with linesRead := t.linesRead + 1 : Intake }.rejected = none := hrejected
  rw [hlines]
  generalize { t with linesRead := t.linesRead + 1 : Intake } = u at hout hnone ⊢
  dsimp only
  cases hline : Line.ofText text with
  | skipped => exact .inr ⟨hout, onlyMessages_nil, rfl, .inl ⟨trivial, hnone⟩⟩
  | unclosedHeader =>
    exact .inr ⟨hout.warn origin (.inl rfl) _ _, hwarn _, rfl, .inl ⟨trivial, hnone⟩⟩
  | header name =>
    obtain ⟨hkept, hstanding⟩ :=
      openSection_inside u origin (String.ofList (Line.content text)) name
    exact .inl ⟨hkept.trans hnone, hstanding⟩
  | option name raw =>
    dsimp only
    rw [hout.standing]
    dsimp only
    -- Outside of sections an option counts as the version, or it is dropped.
    by_cases hname : name = Line.versionName
    · rw [if_pos hname]
      obtain ⟨hafter, hmessages, hread, hverdict⟩ :=
        hout.takeVersion hnone origin (String.ofList (Line.content text)) raw
      refine .inr ⟨hafter, hmessages, hread, ?_⟩
      cases hrefusal : d.refusal? origin raw with
      | none => exact .inl ⟨fun _ => hrefusal, hverdict.trans hrefusal⟩
      | some failure =>
        exact .inr ⟨raw, failure, by rw [hname], hrefusal, hverdict.trans hrefusal⟩
    · rw [if_neg hname]
      exact .inr ⟨hout.warn origin (.inr rfl) _ _, hwarn _, rfl,
        .inl ⟨fun h => absurd h hname, hnone⟩⟩

/-- Lines that reject the file end with a version line that does, and the lines before it have all
passed. The induction is on the lines, and what it carries is that no header was met. -/
theorem exists_refused_line {d : Document} (origin : String) (lines : List (List Char)) {t : Intake}
    (h : t.Outside d) (hrejected : t.rejected = none)
    (hsome : (takeLines origin lines t).result.rejected ≠ none) :
    (takeLines origin lines t).result.Outside d ∧
      OnlyMessages (takeLines origin lines t).events ∧
      ∃ before line after raw failure, lines = before ++ line :: after ∧
        (∀ l ∈ before, d.Passes origin (Line.ofText l)) ∧
        Line.ofText line = .option Line.versionName raw ∧ d.refusal? origin raw = some failure ∧
        (takeLines origin lines t).result.rejected = some failure ∧
        (takeLines origin lines t).result.linesRead = t.linesRead + before.length + 1 := by
  induction lines generalizing t with
  | nil => exact absurd hrejected hsome
  | cons line lines ih =>
    simp only [takeLines, Traced.result_bind, Traced.events_bind] at hsome ⊢
    rcases h.takeLine_cases hrejected origin line with
      ⟨hgoes, hinside⟩ | ⟨hout, hmessages, hread, hcase⟩
    · -- The header has been met, so nothing rejects the file any more.
      rw [if_neg (by simp [hgoes])] at hsome
      rw [takeLines_inside origin lines hinside] at hsome
      exact absurd hgoes hsome
    · rcases hcase with ⟨hpasses, hgoes⟩ | ⟨raw, failure, hline, hrefusal, hstops⟩
      · -- One more line comes before the one that rejects the file.
        have hrest : ¬ (t.takeLine origin line).result.rejected.isSome = true := by simp [hgoes]
        rw [if_neg hrest] at hsome ⊢
        obtain ⟨hafter, hmore, before, last, after, raw, failure, hsplit, hbefore, hlast, hrefusal,
          hstops, hcount⟩ := ih hout hgoes hsome
        refine ⟨hafter, hmessages.append hmore, line :: before, last, after, raw, failure, ?_, ?_,
          hlast, hrefusal, hstops, ?_⟩
        · rw [hsplit, List.cons_append]
        · intro l hl
          rcases List.mem_cons.1 hl with rfl | hl
          · exact hpasses
          · exact hbefore l hl
        · rw [hcount, hread, List.length_cons]
          omega
      · have hlast : (t.takeLine origin line).result.rejected.isSome = true := by simp [hstops]
        rw [if_pos hlast]
        exact ⟨hout, hmessages.append onlyMessages_nil, [], line, lines, raw, failure, rfl,
          List.forall_mem_nil _, hline, hrefusal, hstops, hread⟩

end Intake

/-! ## The file and the disk -/

/-- What taking in a text leaves behind that is rejected, where `x` is what the taking in gives. -/
structure Document.Rejection (d : Document) (disk : Disk) (origin : String) (bytes : List UInt8)
    (x : Traced (OnDisk Document Report)) : Prop where
  /-- The line that was read last is a version line, and it gives the reason of the rejection. The
  lines before it open no section, and their versions are not refused. -/
  last : ∃ before line after raw failure, linesOf bytes = before ++ line :: after ∧
    (∀ l ∈ before, d.Passes origin (Line.ofText (Utf8.decode l))) ∧
    Line.ofText (Utf8.decode line) = .option Line.versionName raw ∧
    d.refusal? origin raw = some failure ∧ x.result.2.2.rejected = some failure ∧
    x.result.2.2.linesRead = before.length + 1
  /-- The file is what it was but for the version that was read. -/
  kept : ∃ versionRead, x.result.1 = { d with versionRead }
  /-- No hook and no migration is called, and no value is published. -/
  messages : OnlyMessages x.events
  /-- Only bad headers and lines that belong to no section are warned of. -/
  warnings : ∀ w ∈ x.result.2.2.warnings,
    w.kind = .missingBracket ∨ w.kind = .optionOutsideSection
  /-- Whatever stood somewhere on the disk stands there still. -/
  grows : disk.Grows x.result.2.1
  /-- The rejected file is what it was. -/
  original : x.result.2.1.stat? origin = disk.stat? origin
  /-- The copy is at a path that led to nothing, and holds the bytes of the rejected file. -/
  backup : ∀ copy, x.result.2.2.backup = some copy → disk.isThere copy = false ∧
    ∃ content, disk.read? origin = some content ∧ x.result.2.1.read? copy = some content

/-- What holds of the messages of a backup and of its log record holds of all that happens. -/
theorem Backup.forall_mem_events_make (disk : Disk) {path : String} {p : Event → Prop}
    (hdone : ∀ target, p (.warning ("File " ++ path ++ " has been backed up as " ++ target)))
    (hlog : ∀ text, p (.record .info .engine text))
    (hfailed : p (.error ("Error: unable to backup file " ++ path))) :
    ∀ x ∈ (make disk path).events, p x := by
  unfold make
  dsimp only
  split
  · exact List.forall_mem_cons.2 ⟨hdone _, List.forall_mem_singleton.2 (hlog _)⟩
  · exact List.forall_mem_singleton.2 hfailed

/-- A backup gives only messages. -/
theorem Backup.onlyMessages_make (disk : Disk) (path : String) :
    OnlyMessages (make disk path).events :=
  forall_mem_events_make disk (fun _ => rfl) (fun _ => rfl) rfl

/-- A backup leaves the file that it copies as it was. -/
theorem Backup.stat?_make (disk : Disk) (path : String) :
    (Backup.make disk path).result.1.stat? path = disk.stat? path := by
  obtain ⟨hgrows, hfails, hcopy⟩ := Backup.make_spec disk path
  cases hanswer : (Backup.make disk path).result.2.toOption with
  | none => rw [hfails hanswer]
  | some copy =>
    obtain ⟨-, content, hread, -⟩ := hcopy copy hanswer
    obtain ⟨mode, modified, hstat, -⟩ := Disk.read?_eq_some_iff.1 hread
    rw [hstat, hgrows.stat? hstat]

/-- Taking in a text that is rejected. -/
theorem Document.rejection_of_parse {d : Document} {disk : Disk} {origin : String}
    {bytes : List UInt8} (h : (d.parse disk origin bytes).result.2.2.rejected.isSome) :
    d.Rejection disk origin bytes (d.parse disk origin bytes) := by
  have hsome : (d.takeIn origin bytes).result.rejected.isSome := by
    obtain ⟨backup, hreport⟩ := d.exists_report_parse disk origin bytes
    rwa [hreport] at h
  have hstart : ({ document := { d with versionRead := 1 } } : Intake).Outside d :=
    ⟨rfl, ⟨1, rfl⟩, List.forall_mem_nil _⟩
  obtain ⟨hout, hmessages, before, line, after, raw, failure, hsplit, hbefore, hline, hrefusal,
    hrejected, hcount⟩ := Intake.exists_refused_line origin ((linesOf bytes).map Utf8.decode) hstart
      rfl (Option.isSome_iff_ne_none.1 hsome)
  -- The decoded lines are cut where the lines are.
  obtain ⟨before, rest, hlines, rfl, hrest⟩ := List.map_eq_append_iff.1 hsplit
  obtain ⟨line, after, rfl, rfl, rfl⟩ := List.map_eq_cons_iff.1 hrest
  -- A text that is rejected is backed up, and no option is reached after that.
  have hparse : d.parse disk origin bytes =
      (do
        let t ← d.takeIn origin bytes
        let made ← Backup.make disk origin
        pure (t.document, made.1, { t.report with backup := made.2.toOption })) := by
    unfold parse
    show (d.takeIn origin bytes >>= fun t => _) = (d.takeIn origin bytes >>= fun t => _)
    simp only [bind, Traced.bind, if_pos hsome]
  obtain ⟨hgrows, -, hcopy⟩ := Backup.make_spec disk origin
  rw [hparse]
  exact {
    last := ⟨before, line, after, raw, failure, hlines,
      fun l hl => hbefore _ (List.mem_map_of_mem hl), hline, hrefusal, hrejected,
      hcount.trans (by rw [List.length_map]; exact congrArg (· + 1) (Nat.zero_add _))⟩
    kept := hout.document
    messages := hmessages.append
      ((Backup.onlyMessages_make disk origin).append onlyMessages_nil)
    warnings := hout.warnings
    grows := hgrows
    original := Backup.stat?_make disk origin
    backup := hcopy }

/-! ## The reload -/

/-- A section whose options have no mark and their default values, unless a read hook takes its
lines. -/
def Section.reverted (s : Section) : Section :=
  if s.hooks.read.isSome then s
  else { s with entries := s.entries.map fun e => { e with value := e.default, loaded := false } }

/-- A section that loses its marks and is reset at once has default values only. -/
theorem Section.resetMissing_unmark {s : Section} (h : ∀ e ∈ s.entries, e.Sound) :
    s.unmark.resetMissing.result = s.reverted := by
  unfold reverted
  cases hread : s.hooks.read with
  | some hook =>
    rw [Section.unmark_of_read hread]
    exact Section.resetMissing_of_read hread
  | none =>
    have hreset (e : Entry) (he : e ∈ s.entries) :
        ({ e with loaded := false } : Entry).resetMissing.result =
          { e with value := e.default, loaded := false } :=
      Entry.resetMissing_of_not_loaded rfl ⟨(h e he).domain, (h e he).value, (h e he).default⟩
    unfold unmark resetMissing
    simp only [hread, Option.isSome_none, Bool.false_eq_true, if_false, Traced.result_bind,
      Traced.result_pure, Traced.result_each, List.map_map]
    exact congrArg (fun entries => { s with entries }) (List.map_congr_left hreset)

/-- A reading that rejects the file notes the version and the stamp. -/
theorem Document.load_of_rejected {d d' : Document} {env : Environment} {disk disk' : Disk}
    {reloading : Bool} {report : Report}
    (h : (d.load env disk reloading).result = (d', disk', .ok report))
    (hrejected : report.rejected.isSome) :
    ∃ versionRead stamp, d' = { d with versionRead, stamp } := by
  obtain ⟨stamp, disk₁, made, content, p, -, -, rfl, rfl, rfl, rfl⟩ := exists_parse_of_load h
  obtain ⟨versionRead, hkept⟩ := (rejection_of_parse hrejected).kept
  rw [hkept]
  exact ⟨versionRead, _, rfl⟩

/-- A file that loses its marks and is reset at once has default values where no read hook takes the
lines. -/
theorem Document.sections_resetMissing_markMissing {d : Document}
    (hsound : ∀ s ∈ d.sections, ∀ e ∈ s.entries, e.Sound) :
    d.markMissing.resetMissing.result.sections = d.sections.map Section.reverted := by
  have hsections : d.markMissing.sections = d.sections.map Section.unmark := rfl
  simp only [resetMissing, Traced.result_bind, Traced.result_pure, Traced.result_each, hsections,
    List.map_map]
  exact List.map_congr_left fun s hs => Section.resetMissing_unmark (hsound s hs)

/-- A reload that rejects the file leaves default values where no read hook takes the lines. -/
theorem Document.sections_of_reload {d d' : Document} {env : Environment} {disk disk' : Disk}
    {report : Report} (hsound : ∀ s ∈ d.sections, ∀ e ∈ s.entries, e.Sound)
    (h : (d.reload env disk).result = (d', disk', .ok report))
    (hrejected : report.rejected.isSome) : d'.sections = d.sections.map Section.reverted := by
  obtain ⟨x, hloaded, rfl⟩ := exists_load_of_reload h
  -- The marks are gone when the resets begin, since no line has set one.
  obtain ⟨versionRead, stamp, rfl⟩ := load_of_rejected hloaded hrejected
  exact sections_resetMissing_markMissing hsound

/-- Text that is rejected leaves no trace in the options, and none on the disk but its copy; a
reload then brings all options of sections without a read hook to their default values. -/
theorem Document.rejection_and_reverted (d : Document) :
    (∀ disk origin bytes, (d.parse disk origin bytes).result.2.2.rejected.isSome →
      d.Rejection disk origin bytes (d.parse disk origin bytes)) ∧
    ∀ r : Registry, r.Reachable → d ∈ r.documents → ∀ env disk d' disk' report,
      (d.reload env disk).result = (d', disk', .ok report) → report.rejected.isSome →
      d'.sections = d.sections.map Section.reverted := by
  refine ⟨fun disk origin bytes => rejection_of_parse, ?_⟩
  intro r hr hd env disk d' disk' report h hrejected
  have hwell := hr.wellFormed.documents d hd
  exact sections_of_reload (fun s hs e he => ((hwell.sections s hs).entries e he).sound) h hrejected

/-- A text whose second version line is too new: a bad header and a line that belongs to no section
come before it, and a good line after it. -/
def rejectedText : List UInt8 :=
  Utf8.encode
    ("size = 8\nconfig_version = 1\n[look\nconfig_version = 7\n[look]\ndepth = 7\n").toList

/-- A disk with that text. -/
def rejectedDisk : Disk where
  nodes := [(["etc"], .directory), (["etc", "app.conf"], .file rejectedText 384 (.second 0))]
  now := "20240101.000000"

/-- The good line is lost, as are the values that the options had: they are numbers with the default
value 1. The rejected text has a copy, for which there was room beside it. -/
theorem rejection_and_reverted_stocked :
    (∃ copy, rejectedDisk.isThere copy = false ∧
      (stocked.parse rejectedDisk "/etc/app.conf" rejectedText).result.2.1.read? copy =
        some rejectedText) ∧
    (stocked.parse rejectedDisk "/etc/app.conf" rejectedText).result.1.sections = stocked.sections ∧
    ∃ s, (stocked.reload { dir := "/etc" } rejectedDisk).result.1.section? "look" = some s ∧
      s.entry? "depth" =
        some { count "look" "depth" with value := some (.integer 1), loaded := false } := by
  obtain ⟨hparse, hreload⟩ := Document.rejection_and_reverted stocked
  have hrejection := hparse rejectedDisk "/etc/app.conf" rejectedText (by decide +kernel)
  refine ⟨?_, ?_, ?_⟩
  · have hcopy : (stocked.parse rejectedDisk "/etc/app.conf" rejectedText).result.2.2.backup =
        some "/etc/app.conf.backup.20240101.000000" := by decide +kernel
    have htext : rejectedDisk.read? "/etc/app.conf" = some rejectedText := by decide +kernel
    obtain ⟨habsent, content, hread, hcontent⟩ := hrejection.backup _ hcopy
    obtain rfl := Option.some.inj (hread.symm.trans htext)
    exact ⟨_, habsent, hcontent⟩
  · obtain ⟨versionRead, hkept⟩ := hrejection.kept
    rw [hkept]
  · have hreachable : Registry.Reachable { env := { dir := "/etc" }, documents := [stocked] } :=
      ⟨{ dir := "/etc" }, stocking, {}, rfl⟩
    have hok : ((stocked.reload { dir := "/etc" } rejectedDisk).result.2.2.toOption.any
        fun report => report.rejected.isSome) = true := by decide +kernel
    generalize hresult : (stocked.reload { dir := "/etc" } rejectedDisk).result = result at hok ⊢
    obtain ⟨d', disk', answer⟩ := result
    cases answer with
    | error failure => cases hok
    | ok report =>
      have hsections := hreload _ hreachable (List.mem_singleton_self stocked) { dir := "/etc" }
        rejectedDisk d' disk' report hresult hok
      dsimp only [Document.section?]
      rw [hsections]
      exact ⟨_, rfl, rfl⟩

end TypedConfig
