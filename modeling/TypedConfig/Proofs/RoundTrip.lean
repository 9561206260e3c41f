import Mathlib.Data.List.Infix
import TypedConfig.Document.Save
import TypedConfig.Proofs.Lines
import TypedConfig.Proofs.Projection

/-!
# What is written can be read

The text of a file is a list of lines (`Document.exists_draft_eq`), and a file of the same form,
whose options may hold anything, takes each of them in without a warning (`Intake.Takes`): the
comment and the empty lines say nothing, the version is its own, each header opens a section, and
each option line leads to a value of the text that was written. So after the reading its options
show what those of the first file show (`Document.parse_draft`).
-/

namespace TypedConfig

/-! ## What a file can hold -/

/-- An option that leaves its values to no check and that a line can hold. -/
structure Entry.CanWrite (e : Entry) : Prop where
  check : e.check = none
  name : Line.IsName e.name.toList
  bounds : e.domain.HasUsualBounds
  value : ∀ v, e.value = some v → e.domain.CanWrite v

/-- A section that leaves nothing to hooks and that lines can hold. -/
structure Section.CanWrite (s : Section) : Prop where
  hooks : s.hooks = {}
  oneLine : Text.OneLine s.name.toList
  bracket : ']' ∉ s.name.toList
  equals : '=' ∉ s.name.toList
  entries : ∀ e ∈ s.entries, e.CanWrite

/-- A file that lines can hold. -/
structure Document.CanWrite (d : Document) : Prop where
  name : '\n' ∉ d.name.toList
  sections : ∀ s ∈ d.sections, s.CanWrite

/-- Nothing of a file that lines can hold is left to hooks. -/
theorem Document.CanWrite.hooks {d : Document} (h : d.CanWrite) : ∀ s ∈ d.sections, s.hooks = {} :=
  fun s hs => (h.sections s hs).hooks

/-- Settings whose texts fit into the lines of a comment. -/
structure Settings.CanWrite (s : Settings) : Prop where
  productName : '\n' ∉ s.productName.toList
  productVersion : '\n' ∉ s.productVersion.toList
  helpUrl : '\n' ∉ s.helpUrl.toList

/-! ## Written lines -/

/-- The lines of the comment at the start of a file, without the number sign. -/
def Settings.comment (s : Settings) (fileName : String) : List (List Char) :=
  ["", " " ++ s.label ++ " -- " ++ fileName, "",
    " WARNING: It is NOT recommended to edit this file by hand,",
    " especially if " ++ s.productName ++ " is running.", "",
    " Use commands like /set or /fset to change settings in " ++ s.productName ++ ".", "",
    " For more info, see: " ++ s.helpUrl, ""].map String.toList

/-- The line of an option with its value. -/
def Entry.line (e : Entry) : List Char :=
  Line.optionLine e.name e.fileText

/-- The lines of a section. -/
def Section.lines (s : Section) : List (List Char) :=
  [] :: Line.headerLine s.name :: s.entries.map Entry.line

/-- The lines of the version, which version one goes without. -/
def Document.versionLines (d : Document) : List (List Char) :=
  if 1 < d.version then [[], Line.optionLine Line.versionName (some (Numeral.ofNat d.version))]
  else []

/-- The lines of a file. -/
def Document.lines (d : Document) (settings : Settings) : List (List Char) :=
  (settings.comment d.fileName).map ('#' :: ·) ++
    (d.versionLines ++ d.sections.flatMap Section.lines)

/-- The text of lines in two parts is made of the texts of both. -/
theorem Text.unlines_append (ls ms : List (List Char)) :
    Text.unlines (ls ++ ms) = Text.unlines ls ++ Text.unlines ms :=
  List.flatMap_append

/-- The comment at the start of a file is written line by line. -/
theorem Settings.toList_headerText (s : Settings) (fileName : String) :
    (s.headerText fileName).toList = Text.unlines ((s.comment fileName).map ('#' :: ·)) := by
  unfold headerText comment Text.unlines
  simp only [String.toList_append, List.map_cons, List.map_nil, List.flatMap_cons, List.flatMap_nil,
    List.append_assoc, List.cons_append]
  simp

/-- The text of a section is written line by line. -/
theorem Section.toList_text (s : Section) : s.text.toList = Text.unlines s.lines := by
  have hentries : ∀ es : List Entry, (String.join (es.map fun e => e.lineText)).toList =
      Text.unlines (es.map Entry.line) := by
    intro es
    induction es with
    | nil => rfl
    | cons e es ih =>
      rw [List.map_cons, String.join_cons, String.toList_append, ih]
      exact congrArg (· ++ _) (Line.toList_optionText e.name e.fileText)
  rw [Body.text, String.toList_append, hentries, Line.toList_headerText, ← Text.unlines_append]
  rfl

/-- The version of a file is written line by line. -/
theorem Document.toList_versionText (d : Document) :
    d.versionText.toList = Text.unlines d.versionLines := by
  unfold versionText versionLines
  split
  · have hescape : Line.escape Line.versionName = "" := by decide
    simp [Line.optionLine, Text.unlines, hescape]
  · rfl

/-- Sections without hooks are written one after the other. -/
theorem Section.drafts_result (defaults : Bool) {ss : List Section}
    (h : ∀ s ∈ ss, s.hooks = {}) :
    (Section.drafts defaults ss).result = .ok (String.join (ss.map fun s => s.text)) := by
  induction ss with
  | nil => rfl
  | cons s ss ih =>
    have hooks := h s (List.mem_cons_self ..)
    have hdraft : (s.draft defaults).result = .ok s.text := by
      unfold Section.draft
      rw [hooks]
      cases defaults <;> rfl
    unfold Section.drafts
    simp only [Traced.result_bind, hdraft, ih fun t ht => h t (List.mem_cons_of_mem _ ht)]
    rw [List.map_cons, String.join_cons]
    rfl

/-- A file without hooks is written, and what is written are its lines. -/
theorem Document.exists_draft_eq {d : Document} (h : ∀ s ∈ d.sections, s.hooks = {})
    (settings : Settings) (defaults : Bool) :
    ∃ text, (d.draft settings defaults).result = .ok text ∧
      text.toList = Text.unlines (d.lines settings) := by
  have hsections : ∀ ss : List Section, (String.join (ss.map fun s => s.text)).toList =
      Text.unlines (ss.flatMap Section.lines) := by
    intro ss
    induction ss with
    | nil => rfl
    | cons s ss ih =>
      rw [List.map_cons, String.join_cons, String.toList_append, ih, Section.toList_text,
        List.flatMap_cons, Text.unlines_append]
  unfold draft
  simp only [Traced.result_bind, Section.drafts_result defaults h]
  refine ⟨_, rfl, ?_⟩
  rw [String.toList_append, String.toList_append, hsections, Settings.toList_headerText,
    Document.toList_versionText, lines, Text.unlines_append, Text.unlines_append, List.append_assoc]

/-! ## Each line by itself -/

namespace Entry.CanWrite

variable {e : Entry}

/-- The text in a file is one that a line can hold. -/
theorem fileText (h : e.CanWrite) {text : String} (htext : e.fileText = some text) :
    Text.OneLine text.toList ∧ text.toList.head? ≠ some ' ' := by
  obtain ⟨v, hv, rfl⟩ := Option.map_eq_some_iff.1 htext
  exact Domain.oneLine_formatForFile (h.value v hv)

/-- The line of an option is read as its name and the text of its value. -/
theorem ofText_line (h : e.CanWrite) (hname : e.name ≠ "") :
    Line.ofText e.line = .option e.name e.fileText :=
  Line.ofText_optionLine hname h.name (fun _ htext => (h.fileText htext).1)
    fun _ htext => (h.fileText htext).2

/-- What the text in a file stands for is the canonical text; a bare name is null. -/
theorem value_fileText (h : e.CanWrite) : Line.value e.fileText = e.valueText := by
  unfold Line.value Cell.fileText Cell.valueText
  cases hv : e.value with
  | none => rfl
  | some v => exact Domain.decodeValue_formatForFile (h.value v hv)

end Entry.CanWrite

/-- The version line is read as the version's number. -/
theorem Document.ofText_versionLine (d : Document) :
    Line.ofText (Line.optionLine Line.versionName (some (Numeral.ofNat d.version))) =
      .option Line.versionName (some (Numeral.ofNat d.version)) := by
  refine Line.ofText_optionLine (by decide) Line.isName_versionName ?_ ?_
  · rintro text ⟨⟩
    exact (Numeral.isPlain_ofNat d.version).oneLine
  · rintro text ⟨⟩
    exact (Numeral.isPlain_ofNat d.version).head

/-- No line of a file has a line feed. -/
theorem Document.CanWrite.lineFeed {d : Document} (h : d.CanWrite) {settings : Settings}
    (hsettings : settings.CanWrite) : ∀ line ∈ d.lines settings, '\n' ∉ line := by
  -- The three parts of a file: the comment, the line of the version, and the sections.
  have hcomment : ∀ cs ∈ settings.comment d.fileName, '\n' ∉ '#' :: cs := by
    have hproduct := hsettings.productName
    have hversion := hsettings.productVersion
    have hurl := hsettings.helpUrl
    have hname := h.name
    unfold Settings.comment Settings.label Document.fileName
    split <;> simp [hproduct, hversion, hurl, hname, fileExtension]
  have hversion : ∀ line ∈ d.versionLines, '\n' ∉ line := by
    have hone : Text.OneLine
        (Line.optionLine Line.versionName (some (Numeral.ofNat d.version))) := by
      refine Line.oneLine_optionLine Line.isName_versionName.oneLine ?_
      rintro text ⟨⟩
      exact (Numeral.isPlain_ofNat d.version).oneLine
    unfold versionLines
    split
    · simpa using hone.2
    · simp
  have hsection : ∀ s ∈ d.sections, ∀ line ∈ s.lines, '\n' ∉ line := by
    intro s hs line hline
    have hwrite := h.sections s hs
    rcases List.mem_cons.1 hline with rfl | hline
    · simp
    rcases List.mem_cons.1 hline with rfl | hline
    · exact (Line.oneLine_headerLine hwrite.oneLine).2
    · obtain ⟨e, he, rfl⟩ := List.mem_map.1 hline
      have hentry := hwrite.entries e he
      exact (Line.oneLine_optionLine hentry.name.oneLine fun _ ht => (hentry.fileText ht).1).2
  intro line hline
  rcases List.mem_append.1 hline with hline | hline
  · obtain ⟨cs, hcs, rfl⟩ := List.mem_map.1 hline
    exact hcomment cs hcs
  rcases List.mem_append.1 hline with hline | hline
  · exact hversion line hline
  · obtain ⟨s, hs, hline⟩ := List.mem_flatMap.1 hline
    exact hsection s hs line hline

/-! ## Reading without a warning -/

namespace Intake

/-- The state in which nothing was dropped so far. -/
structure IsAt (t : Intake) (d : Document) (standing : Standing) : Prop where
  document : t.document = d
  standing : t.standing = standing
  warnings : t.warnings = []
  rejected : t.rejected = none

/-- Lines that are taken in without a warning, and lead from one file and place to others. -/
def Takes (d : Document) (standing : Standing) (lines : List (List Char)) (d' : Document)
    (standing' : Standing) : Prop :=
  ∀ origin t, t.IsAt d standing → (takeLines origin lines t).result.IsAt d' standing'

/-- Lines in two parts are taken in part after part, unless the first one rejects the text. -/
theorem takeLines_append (origin : String) (lines rest : List (List Char)) (t : Intake)
    (h : (takeLines origin lines t).result.rejected = none) :
    (takeLines origin (lines ++ rest) t).result =
      (takeLines origin rest (takeLines origin lines t).result).result := by
  induction lines generalizing t with
  | nil => rfl
  | cons line lines ih =>
    simp only [List.cons_append, takeLines, Traced.result_bind] at h ⊢
    split at h
    · next hrejected =>
      -- A rejection at this line would be that of all lines.
      rw [Traced.result_pure] at h
      rw [h] at hrejected
      cases hrejected
    · next hgoes =>
      rw [if_neg hgoes, if_neg hgoes]
      exact ih _ h

/-- Lines of the own version need no migration. -/
theorem migrate_of_current {t : Intake} (h : t.document.version ≤ t.document.versionRead)
    (origin : String) (line : LineData) : t.migrate origin line = pure (t, line) :=
  if_pos h

/-- A header of the own version opens the section that it names. -/
theorem openSection_of_current {t : Intake} (h : t.document.version ≤ t.document.versionRead)
    {name : String} {s : Section} (hs : t.document.section? name = some s)
    (origin line : String) :
    t.openSection origin line name = pure { t with standing := .within name } := by
  have hname : (if (t.lineData name none none).sectionName = "" then name
      else (t.lineData name none none).sectionName) = name := ite_self name
  unfold openSection
  rw [migrate_of_current h, Traced.pure_bind]
  simp only [hname, hs]

/-- An option line of the own version that is answered with an outcome is taken in. -/
theorem takeOption_of_current {t : Intake} (h : t.document.version ≤ t.document.versionRead)
    {sectionName name : String} (hname : name ≠ "") {value : Option String} {outcome : SetOutcome}
    (hanswer : (t.document.onSection sectionName fun s => s.applyLine name value).result.2 =
      some (.ok outcome)) (origin line : String) :
    (t.takeOption origin line sectionName name value).result =
      { t with document :=
        (t.document.onSection sectionName fun s => s.applyLine name value).result.1 } := by
  have hkept : ¬ (t.lineData sectionName (some name) value).option.getD "" = "" := hname
  unfold takeOption
  rw [migrate_of_current h, Traced.pure_bind]
  simp only [if_neg hkept, Traced.result_bind]
  have hdata : (t.lineData sectionName (some name) value).value = value := rfl
  have hoption : (t.lineData sectionName (some name) value).option.getD "" = name := rfl
  rw [hdata, hoption]
  -- The answer is an outcome, so neither warning is given.
  generalize (t.document.onSection sectionName _).result = x at hanswer ⊢
  obtain ⟨d, answer⟩ := x
  obtain rfl : answer = some (.ok outcome) := hanswer
  rfl

namespace Takes

variable {d d' d'' : Document} {standing standing' standing'' : Standing}

/-- Without lines nothing changes. -/
theorem nil : Takes d standing [] d standing :=
  fun _ _ h => h

/-- Lines that follow other lines go on from there. -/
theorem append {lines rest : List (List Char)} (h : Takes d standing lines d' standing')
    (h' : Takes d' standing' rest d'' standing'') :
    Takes d standing (lines ++ rest) d'' standing'' := by
  intro origin t ht
  have hlines := h origin t ht
  rw [takeLines_append origin lines rest t hlines.rejected]
  exact h' origin _ hlines

/-- One line that is taken in without a warning. -/
theorem single {line : List Char}
    (h : ∀ origin (t : Intake), t.IsAt d standing →
      (t.takeLine origin line).result.IsAt d' standing') :
    Takes d standing [line] d' standing' := by
  intro origin t ht
  have hline := h origin t ht
  have hgoes : (t.takeLine origin line).result.rejected.isSome = false := by
    rw [hline.rejected]
    rfl
  simp only [takeLines, Traced.result_bind, hgoes, Bool.false_eq_true, if_false]
  exact hline

/-- Lines that follow a line go on from there. -/
theorem cons {line : List Char} {lines : List (List Char)}
    (h : Takes d standing [line] d' standing') (h' : Takes d' standing' lines d'' standing'') :
    Takes d standing (line :: lines) d'' standing'' :=
  append h h'

/-- Comments and empty lines change nothing. -/
theorem skipped {line : List Char} (hline : Line.ofText line = .skipped) :
    Takes d standing [line] d standing := by
  refine single fun origin t ht => ?_
  unfold takeLine
  rw [hline]
  exact ⟨ht.document, ht.standing, ht.warnings, ht.rejected⟩

/-- The line of the own version says which version the text is of. -/
theorem version {line : List Char} {raw : Option String}
    (hline : Line.ofText line = .option Line.versionName raw)
    (hversion : Line.version? raw = some d.version) :
    Takes d .outside [line] { d with versionRead := d.version } .outside := by
  refine single fun origin t ht => ?_
  obtain ⟨rfl, hstanding, hwarnings, hrejected⟩ := ht
  unfold takeLine takeVersion
  simp only [hline, hstanding, if_true, hversion, Nat.le_refl]
  exact ⟨rfl, rfl, hwarnings, hrejected⟩

/-- The header of a section that is there opens it. -/
theorem header {line : List Char} {name : String} (hline : Line.ofText line = .header name)
    (hcurrent : d.version ≤ d.versionRead) (hsection : (d.section? name).isSome) :
    Takes d standing [line] d (.within name) := by
  refine single fun origin t ht => ?_
  obtain ⟨rfl, _, hwarnings, hrejected⟩ := ht
  obtain ⟨s, hs⟩ := Option.isSome_iff_exists.1 hsection
  unfold takeLine
  simp only [hline]
  rw [openSection_of_current (t := { t with linesRead := t.linesRead + 1 }) hcurrent hs]
  exact ⟨rfl, rfl, hwarnings, hrejected⟩

/-- The line of an option that accepts its value is a delivery to it. -/
theorem option {line : List Char} {sectionName name : String} {raw : Option String}
    (hline : Line.ofText line = .option name raw) (hname : name ≠ "")
    (hcurrent : d.version ≤ d.versionRead) {s : Section} (hs : d.section? sectionName = some s)
    (hread : s.hooks.read = none) {e : Entry} (he : s.entry? name = some e)
    (haccept : ∃ outcome, (e.set (Line.value raw)).result.2 = .ok outcome) :
    Takes d (.within sectionName) [line]
      (d.accept { versionRead := d.versionRead } [⟨sectionName, name, Line.value raw⟩])
      (.within sectionName) := by
  refine single fun origin t ht => ?_
  obtain ⟨rfl, hstanding, hwarnings, hrejected⟩ := ht
  obtain ⟨outcome, houtcome⟩ := haccept
  have hdocument := t.document.onSection_applyLine { versionRead := t.document.versionRead }
    ⟨sectionName, name, Line.value raw⟩ rfl
  have hanswer : (t.document.onSection sectionName fun s =>
      s.applyLine name (Line.value raw)).result.2 = some (.ok outcome) := by
    simp only [Document.onSection, hs, Section.applyLine, hread, he, Section.onBody, Body.change,
      Traced.result_bind, Traced.result_pure, houtcome, Option.getD_some]
  unfold takeLine
  simp only [hline, hstanding]
  rw [takeOption_of_current
    (t := { t with standing := .within sectionName, linesRead := t.linesRead + 1 })
    hcurrent hname hanswer]
  exact ⟨hdocument, rfl, hwarnings, hrejected⟩

end Takes

end Intake

/-! ## Files of the same form -/

/-- What there is to an option besides its values, as far as reading goes. -/
def Entry.form (e : Entry) : String × Domain × Bool × Option VetoCheck :=
  (e.name, e.domain, e.nullable, e.check)

/-- What there is to a section besides the values of its options, as far as reading goes. -/
def Section.form (s : Section) :
    String × Hooks × List (String × Domain × Bool × Option VetoCheck) :=
  (s.name, s.hooks, s.entries.map Entry.form)

/-- Files of one version with the same sections and options, whatever the options hold. -/
structure Document.SameForm (d f : Document) : Prop where
  version : d.version = f.version
  sections : d.sections.map Section.form = f.sections.map Section.form

/-- What a section shows: its name, and the name and the canonical text of each option. -/
def Section.shown (s : Section) : String × List (String × Option String) :=
  (s.name, s.entries.map fun e => (e.name, e.valueText))

/-- What a file shows, section by section. -/
def Document.shown (d : Document) : List (String × List (String × Option String)) :=
  d.sections.map Section.shown

/-- What the line of an option delivers. -/
def Section.delivery (s : Section) (e : Entry) : Delivery :=
  ⟨s.name, e.name, e.valueText⟩

/-- What the lines of a section deliver. -/
def Section.deliveries (s : Section) : List Delivery :=
  s.entries.map s.delivery

/-- The form of a section does not depend on its values. -/
theorem Section.form_outline (s : Section) : s.outline.form = s.form := by
  unfold Section.outline Section.form
  rw [List.map_map]
  rfl

/-- The text that an option shows can be set in an option of the same form, which then shows it. -/
theorem Entry.set_valueText {e e' : Entry} (hform : e'.form = e.form) (hsound : e.Sound)
    (hwrite : e.CanWrite) :
    (∃ outcome, (e'.set e.valueText).result.2 = .ok outcome) ∧
      (e'.set e.valueText).result.1.valueText = e.valueText := by
  simp only [form, Prod.mk.injEq] at hform
  obtain ⟨_, hdomain, hnullable, hcheck⟩ := hform
  have hset : ∃ v, e'.set e.valueText = e'.store .value v ∧
      v.map e.domain.format = e.valueText := by
    unfold set Cell.valueText
    rw [hcheck, hwrite.check]
    have hvalue := hsound.value
    -- Null is allowed where it is shown, and the domain accepts the text of any value of its own.
    cases hv : e.value with
    | none =>
      rw [hv] at hvalue
      have hnull : e'.nullable = true := hnullable.trans hvalue
      exact ⟨none, if_pos hnull, rfl⟩
    | some v =>
      rw [hv] at hvalue
      obtain ⟨v', haccept, htext⟩ := Domain.accept?_format hsound.domain hwrite.bounds hvalue
        (hwrite.value v hv) (e'.get .value)
      refine ⟨some v', ?_, congrArg some htext⟩
      simp only [Option.map_some, storeInput, storeText, hdomain, haccept]
  obtain ⟨v, hstore, htext⟩ := hset
  rw [hstore]
  refine ⟨store_isOk e' .value v, ?_⟩
  rw [store_entry, ← htext, ← hdomain]
  rfl

namespace Document.SameForm

variable {d f : Document} {s : Section}

/-- A section of the one file has its like in the other. -/
theorem section? (h : d.SameForm f) (hf : f.WellFormed) (hs : s ∈ f.sections) :
    ∃ t, d.section? s.name = some t ∧ t.form = s.form :=
  hf.sorted.exists_find?_of_map_eq (fun _ _ hform => congrArg (fun p => p.1) hform) h.sections hs

/-- Where the one file leaves nothing to hooks, the other one does not either. -/
theorem isPlain (h : d.SameForm f) (hooks : ∀ s ∈ f.sections, s.hooks = {}) :
    ∀ t ∈ d.sections, t.IsPlain := by
  intro t ht
  have hform : t.form ∈ f.sections.map Section.form := by
    rw [← h.sections]
    exact List.mem_map_of_mem ht
  obtain ⟨s, hs, hst⟩ := List.mem_map.1 hform
  have hhooks : t.hooks = {} := (congrArg (fun p => p.2.1) hst).symm.trans (hooks s hs)
  unfold Section.IsPlain
  rw [hhooks]
  exact ⟨rfl, rfl⟩

/-- Deliveries keep the form of a file. -/
theorem accept (h : d.SameForm f) (hwrite : f.CanWrite) (c : Cursor) (ls : List Delivery) :
    (d.accept c ls).SameForm f where
  version := h.version
  sections := by
    have houtline := congrArg (List.map Section.form)
      (Delivery.outline_foldl_applyIn ls (h.isPlain hwrite.hooks))
    simp only [List.map_map, Function.comp_def, Section.form_outline] at houtline
    exact houtline.trans h.sections

end Document.SameForm

/-- An option of the one section has its like in the other. -/
theorem Section.entry?_of_form_eq {s t : Section} (hform : t.form = s.form)
    (hs : s.toBody.WellFormed) {e : Entry} (he : e ∈ s.entries) :
    ∃ e', t.entry? e.name = some e' ∧ e'.form = e.form :=
  hs.sorted.exists_find?_of_map_eq (fun _ _ h => congrArg (fun p => p.1) h)
    (congrArg (fun p => p.2.2) hform) he

/-! ## Reading what was written -/

namespace Intake.Takes

variable {d f : Document} {s : Section}

/-- A file of the same form takes in the line of an option, which delivers what the option shows. -/
theorem entryLine (hf : f.WellFormed) (hwrite : f.CanWrite) (hform : d.SameForm f)
    (hcurrent : d.version ≤ d.versionRead) (hs : s ∈ f.sections) {e : Entry} (he : e ∈ s.entries) :
    Takes d (.within s.name) [e.line]
      (d.accept { versionRead := d.versionRead } [s.delivery e]) (.within s.name) := by
  have hbody := hf.sections s hs
  have hentry := (hwrite.sections s hs).entries e he
  obtain ⟨t, ht, htform⟩ := hform.section? hf hs
  obtain ⟨e', he', heform⟩ := Section.entry?_of_form_eq htform hbody he
  have hread := (hform.isPlain hwrite.hooks t (Roster.mem_of_find?_eq_some ht)).1
  have hset := Entry.set_valueText heform (hbody.entries e he).sound hentry
  unfold Section.delivery
  rw [← hentry.value_fileText] at hset ⊢
  have hname := (hbody.entries e he).name_ne
  exact option (hentry.ofText_line hname) hname hcurrent ht hread he' hset.1

/-- The induction is on the options. A delivery keeps the form of the file, so the next line finds
its option again. -/
theorem entryLines (hf : f.WellFormed) (hwrite : f.CanWrite) (hform : d.SameForm f)
    (hcurrent : d.version ≤ d.versionRead) (hs : s ∈ f.sections) {es : List Entry}
    (hes : ∀ e ∈ es, e ∈ s.entries) :
    Takes d (.within s.name) (es.map Entry.line)
      (d.accept { versionRead := d.versionRead } (es.map s.delivery)) (.within s.name) := by
  induction es generalizing d with
  | nil => exact nil
  | cons e es ih =>
    have hline := entryLine hf hwrite hform hcurrent hs (hes e (List.mem_cons_self ..))
    have hrest := ih (hform.accept hwrite { versionRead := d.versionRead } [s.delivery e]) hcurrent
      fun e he => hes e (List.mem_cons_of_mem _ he)
    exact cons hline hrest

/-- The lines of a section open it and deliver what its options show. -/
theorem sectionLines (hf : f.WellFormed) (hwrite : f.CanWrite) (hform : d.SameForm f)
    (hcurrent : d.version ≤ d.versionRead) (hs : s ∈ f.sections) (standing : Standing) :
    Takes d standing s.lines
      (d.accept { versionRead := d.versionRead } s.deliveries) (.within s.name) := by
  have hname := hwrite.sections s hs
  obtain ⟨t, ht, _⟩ := hform.section? hf hs
  have hheader : Line.ofText (Line.headerLine s.name) = .header s.name :=
    Line.ofText_headerLine hname.oneLine hname.bracket hname.equals
  have hopen : Takes d standing [Line.headerLine s.name] d (.within s.name) :=
    header hheader hcurrent (by rw [ht]; rfl)
  exact cons (skipped rfl) (cons hopen (entryLines hf hwrite hform hcurrent hs fun _ he => he))

/-- The lines of sections deliver the values of their options. -/
theorem allSections (hf : f.WellFormed) (hwrite : f.CanWrite) (hform : d.SameForm f)
    (hcurrent : d.version ≤ d.versionRead) (standing : Standing) {ss : List Section}
    (hss : ∀ s ∈ ss, s ∈ f.sections) :
    ∃ standing', Takes d standing (ss.flatMap Section.lines)
      (d.accept { versionRead := d.versionRead } (ss.flatMap Section.deliveries)) standing' := by
  induction ss generalizing d standing with
  | nil => exact ⟨standing, nil⟩
  | cons s ss ih =>
    have hlines := sectionLines hf hwrite hform hcurrent (hss s (List.mem_cons_self ..)) standing
    obtain ⟨standing', hrest⟩ :=
      ih (hform.accept hwrite { versionRead := d.versionRead } s.deliveries) hcurrent
        (.within s.name) fun s hs => hss s (List.mem_cons_of_mem _ hs)
    rw [Document.accept_accept, ← List.flatMap_cons] at hrest
    exact ⟨standing', append hlines hrest⟩

/-- Comments change nothing. -/
theorem comments (d : Document) (standing : Standing) (ls : List (List Char)) :
    Takes d standing (ls.map ('#' :: ·)) d standing := by
  induction ls with
  | nil => exact nil
  | cons l ls ih => exact cons (skipped (Line.ofText_comment l)) ih

/-- The lines of the version, or their absence, say that the text is of the own version. -/
theorem versionLines (hf : f.WellFormed) (hversion : d.version = f.version)
    (hread : d.versionRead = 1) :
    Takes d .outside f.versionLines { d with versionRead := d.version } .outside := by
  unfold Document.versionLines
  split
  · have hnumber : Line.version? (some (Numeral.ofNat f.version)) = some d.version := by
      rw [hversion]
      exact Line.version?_ofNat hf.version_pos hf.version_le
    exact cons (skipped rfl) (version f.ofText_versionLine hnumber)
  · next hone =>
    -- Version one is what reading starts with.
    have hpos := hf.version_pos
    have hsame : d.version = d.versionRead := by omega
    have hdocument : { d with versionRead := d.version } = d := by
      cases d
      cases hsame
      rfl
    rw [hdocument]
    exact nil

/-- A file of the same form takes in all lines of a file, which deliver what its options show. -/
theorem lines (hf : f.WellFormed) (hwrite : f.CanWrite) (hform : d.SameForm f)
    (hread : d.versionRead = 1) (settings : Settings) :
    ∃ standing, Takes d .outside (f.lines settings)
      (d.accept { versionRead := d.version } (f.sections.flatMap Section.deliveries)) standing := by
  have hcomments := comments d .outside (settings.comment f.fileName)
  have hversion := versionLines hf hform.version hread
  have hcurrent : ({ d with versionRead := d.version } : Document).SameForm f :=
    ⟨hform.version, hform.sections⟩
  obtain ⟨standing, hsections⟩ :=
    allSections hf hwrite hcurrent (Nat.le_refl _) .outside fun s hs => hs
  exact ⟨standing, append hcomments (append hversion hsections)⟩

end Intake.Takes

/-! ## What a file shows afterwards -/

/-- What a text has for an option of a section, if it has what the section shows. -/
theorem Section.valuesFor_deliveries {s : Section} (hs : s.toBody.WellFormed) {e : Entry}
    (he : e ∈ s.entries) : Delivery.valuesFor e.name s.deliveries = [e.valueText] := by
  have hone : s.entries.filter (fun e' => e'.name = e.name) = [e] := hs.sorted.filter_name he
  unfold Delivery.valuesFor Section.deliveries
  rw [List.filter_map, List.map_map]
  have hfilter : s.entries.filter ((fun l : Delivery => decide (l.option = e.name)) ∘ s.delivery) =
      s.entries.filter (fun e' => e'.name = e.name) := rfl
  rw [hfilter, hone]
  rfl

/-- What a text has for a section, if it has what the file shows. -/
theorem Document.filter_deliveries {f : Document} (hf : f.WellFormed) {s : Section}
    (hs : s ∈ f.sections) :
    (f.sections.flatMap Section.deliveries).filter (fun l => l.sectionName = s.name) =
      s.deliveries := by
  have hone : f.sections.filter (fun t => t.name = s.name) = [s] := hf.sorted.filter_name hs
  have hfilter : ∀ ss : List Section,
      (ss.flatMap Section.deliveries).filter (fun l => l.sectionName = s.name) =
        (ss.filter fun t => t.name = s.name).flatMap Section.deliveries := by
    intro ss
    induction ss with
    | nil => rfl
    | cons t ts ih =>
      have hsection : ∀ l ∈ t.deliveries, l.sectionName = t.name := by
        intro l hl
        obtain ⟨e, _, rfl⟩ := List.mem_map.1 hl
        rfl
      rw [List.flatMap_cons, List.filter_append, ih]
      by_cases hname : t.name = s.name
      · rw [List.filter_cons_of_pos (by simpa using hname), List.flatMap_cons,
          List.filter_eq_self.2 fun l hl => by simpa [hsection l hl] using hname]
      · rw [List.filter_cons_of_neg (by simpa using hname),
          List.filter_eq_nil_iff.2 fun l hl => by simpa [hsection l hl] using hname,
          List.nil_append]
  rw [hfilter, hone, List.flatMap_singleton]

/-- A section of the same form shows, after these deliveries, what the first section shows. -/
theorem Section.shown_accept {s t : Section} (hs : s.toBody.WellFormed) (hwrite : s.CanWrite)
    (hform : t.form = s.form) (hafter : (t.accept s.deliveries).form = s.form)
    (hplain : t.IsPlain) : (t.accept s.deliveries).shown = s.shown := by
  have hname : (t.accept s.deliveries).name = s.name := congrArg (fun p => p.1) hafter
  have hentries : (t.accept s.deliveries).entries.map Entry.form = s.entries.map Entry.form :=
    congrArg (fun p => p.2.2) hafter
  have hnames : Roster.names (t.accept s.deliveries).entries = Roster.names s.entries :=
    Roster.names_eq_of_map_eq (fun _ _ h => congrArg (fun p => p.1) h) hentries
  have hshown : (t.accept s.deliveries).entries.map (fun e => (e.name, e.valueText)) =
      s.entries.map fun e => (e.name, e.valueText) := by
    refine hs.sorted.map_eq_of_find? hnames fun e he => ?_
    obtain ⟨e', he', heform⟩ := entry?_of_form_eq hform hs he
    have hfound := Delivery.entry?_accept s.deliveries hplain.1 hplain.keepsToOption he'
    rw [valuesFor_deliveries hs he] at hfound
    have hset := (Entry.set_valueText heform (hs.entries e he).sound (hwrite.entries e he)).2
    have hframe := e'.set_entry e.valueText
    refine ⟨_, hfound, ?_⟩
    have hename : e'.name = e.name := congrArg (fun p => p.1) heform
    refine Prod.ext hename ?_
    calc (e'.setAll [e.valueText]).value.map e'.domain.format
      _ = (e'.set e.valueText).result.1.value.map e'.domain.format := rfl
      _ = (e'.set e.valueText).result.1.valueText := by rw [hframe]; rfl
      _ = e.valueText := hset
  exact Prod.ext hname hshown

/-- A file of the same form shows, after these deliveries, what the first file shows. -/
theorem Document.shown_accept {d f : Document} (hf : f.WellFormed) (hwrite : f.CanWrite)
    (hform : d.SameForm f) (c : Cursor) :
    (d.accept c (f.sections.flatMap Section.deliveries)).shown = f.shown := by
  have hafter := hform.accept hwrite c (f.sections.flatMap Section.deliveries)
  have hnames : Roster.names (d.accept c (f.sections.flatMap Section.deliveries)).sections =
      Roster.names f.sections :=
    Roster.names_eq_of_map_eq (fun _ _ h => congrArg (fun p => p.1) h) hafter.sections
  -- The sections stand where they stood, so it is enough to look at each under its name.
  refine hf.sorted.map_eq_of_find? hnames fun s hs => ?_
  obtain ⟨t, ht, htform⟩ := hform.section? hf hs
  obtain ⟨t', ht', htform'⟩ := hafter.section? hf hs
  have hfound := section?_accept ht c (f.sections.flatMap Section.deliveries)
  rw [filter_deliveries hf hs] at hfound
  obtain rfl : t.accept s.deliveries = t' := Option.some.inj (hfound.symm.trans ht')
  have hplain := hform.isPlain hwrite.hooks t (Roster.mem_of_find?_eq_some ht)
  exact ⟨_, hfound,
    Section.shown_accept (hf.sections s hs) (hwrite.sections s hs) htform htform' hplain⟩

/-- A file of the same form takes in the lines of a file without a warning, and shows what the first
file shows afterwards. -/
theorem Document.parse_lines {f : Document} (hf : f.WellFormed) (hwrite : f.CanWrite)
    {settings : Settings} (hsettings : settings.CanWrite) {d : Document} (hform : d.SameForm f)
    (disk : Disk) (origin : String) :
    ∃ after report,
      (d.parse disk origin (Utf8.encode (Text.unlines (f.lines settings)))).result =
        (after, disk, report) ∧
      report.warnings = [] ∧ report.rejected = none ∧ after.versionRead = d.version ∧
      after.shown = f.shown := by
  -- The lines that are read are those that were written.
  have hread : (linesOf (Utf8.encode (Text.unlines (f.lines settings)))).map Utf8.decode =
      f.lines settings :=
    map_decode_linesOf_unlines (hwrite.lineFeed hsettings)
  have hstart : ({ d with versionRead := 1 } : Document).SameForm f :=
    ⟨hform.version, hform.sections⟩
  obtain ⟨standing, htakes⟩ := Intake.Takes.lines hf hwrite hstart rfl settings
  have hend := htakes origin { document := { d with versionRead := 1 } } ⟨rfl, rfl, rfl, rfl⟩
  rw [← hread] at hend
  generalize Utf8.encode (Text.unlines (f.lines settings)) = bytes at hend ⊢
  have htaken : (d.takeIn origin bytes).result.IsAt _ standing := hend
  have hgoes : (d.takeIn origin bytes).result.rejected.isSome = false := by
    rw [htaken.rejected]
    rfl
  refine ⟨_, (d.takeIn origin bytes).result.report, ?_, htaken.warnings, htaken.rejected, rfl,
    shown_accept hf hwrite hstart { versionRead := d.version }⟩
  unfold parse
  simp only [Traced.result_bind, hgoes, Bool.false_eq_true, if_false]
  rw [htaken.document]
  rfl

/-- Whatever file a host can bring about, if it has no hooks and checks and its texts can be held by
lines, it can be written, and every file of the same form takes in the bytes that were written
without a warning. After that its version is the one that was read, and its options show what those
of the first file show, whatever they have held before. -/
theorem Document.parse_draft {r : Registry} (hr : r.Reachable) {f : Document}
    (hf : f ∈ r.documents) (hwrite : f.CanWrite) {settings : Settings}
    (hsettings : settings.CanWrite) {d : Document} (hform : d.SameForm f) (defaults : Bool)
    (disk : Disk) (origin : String) :
    ∃ text, (f.draft settings defaults).result = .ok text ∧
      ∃ after report,
        (d.parse disk origin (Utf8.encode text.toList)).result = (after, disk, report) ∧
        report.warnings = [] ∧ report.rejected = none ∧ after.versionRead = d.version ∧
        after.shown = f.shown := by
  have hwell := hr.wellFormed.documents f hf
  obtain ⟨text, hdraft, hlines⟩ := exists_draft_eq hwrite.hooks settings defaults
  refine ⟨text, hdraft, ?_⟩
  rw [hlines]
  exact parse_lines hwell hwrite hsettings hform disk origin

/-- A run that makes a file of version three with an option of each kind, and with names that need
an escape or hold a space. -/
def filing : List Operation :=
  [.addFile "app",
    .setVersion "app" 3,
    .addSection "app" { name := "[keys" },
    .addSection "app" { name := "look" },
    .edit "app" "[keys"
      (.define
          { name := "#depth", kind := .integer, lo := -9, hi := 9, value := some "-7" } fun _ =>
        .define { name := "[other", kind := .string, nullable := true } fun _ =>
        .define { name := "\\note", kind := .string, value := some " a = 'b' " } fun _ =>
        .finish (.ok ())),
    .edit "app" "look"
      (.define { name := "mode", kind := .enum, labels := ["plain", "big"], value := some "big" }
        fun _ => .define { name := "show all", kind := .boolean, value := some "on" } fun _ =>
        .define { name := "tint", kind := .color, value := some "lightred" } fun _ =>
        .finish (.ok ()))]

/-- An option of that file. -/
def filed (sectionName name : String) (domain : Domain) (labels : List String)
    (default value : Option Value) : Entry :=
  { file := "app", sectionName, name, parent := none, domain, labels, description := "",
    nullable := default.isNone, default, value, check := none, tellsChange := false,
    tellsRemoval := false }

/-- A section of that file. -/
def folder (name : String) (entries : List Entry) : Section :=
  { file := "app", name, canAdd := false, canDelete := false, palette := Palette.basic, entries,
    hooks := {} }

/-- The file with these values. -/
def filedWith (depth : Int) (other : Option Value) (note : String) (mode : Nat) (all : Bool)
    (tint : Int) : Document where
  name := "app"
  priority := 1000
  version := 3
  sections := [
    folder "[keys" [
      filed "[keys" "#depth" (.integer (-9) 9) [] (some (.integer (-7))) (some (.integer depth)),
      filed "[keys" "[other" (.string 0 0) [] none other,
      filed "[keys" "\\note" (.string 0 0) [] (some (.string " a = 'b' ")) (some (.string note))],
    folder "look" [
      filed "look" "mode" (.enum ["plain", "big"]) ["plain", "big"] (some (.enum 1))
        (some (.enum mode)),
      filed "look" "show all" .boolean [] (some (.boolean true)) (some (.boolean all)),
      filed "look" "tint" (.color 0 Palette.basic) [] (some (.color 4)) (some (.color tint))]]

/-- The file that `filing` makes. -/
def firstFile : Document :=
  filedWith (-7) none " a = 'b' " 1 true 4

/-- The same file with other values. -/
def secondFile : Document :=
  filedWith 3 (some (.string "x")) "" 0 false 16

/-- The file can be written so that it is read back. -/
theorem canWrite_firstFile : firstFile.CanWrite := by
  have hname (name : String) (h : name.toList.head? ≠ some ' ' ∧ name.toList.getLast? ≠ some ' ' ∧
      ¬ Line.mark <:+: name.toList ∧ '\r' ∉ name.toList ∧ '\n' ∉ name.toList) :
      Line.IsName name.toList := ⟨h.1, h.2.1, h.2.2.1, h.2.2.2⟩
  refine ⟨by decide, fun s hs => ?_⟩
  simp only [firstFile, filedWith, List.mem_cons, List.not_mem_nil, or_false] at hs
  rcases hs with rfl | rfl
  · refine ⟨rfl, ⟨by decide, by decide⟩, by decide, by decide, fun e he => ?_⟩
    simp only [folder, List.mem_cons, List.not_mem_nil, or_false] at he
    rcases he with rfl | rfl | rfl
    · refine ⟨rfl, hname "#depth" (by decide), ⟨by decide, by decide⟩, ?_⟩
      rintro v ⟨⟩
      trivial
    · refine ⟨rfl, hname "[other" (by decide), trivial, ?_⟩
      rintro v ⟨⟩
    · refine ⟨rfl, hname "\\note" (by decide), trivial, ?_⟩
      rintro v ⟨⟩
      exact ⟨by decide, by decide⟩
  · refine ⟨rfl, ⟨by decide, by decide⟩, by decide, by decide, fun e he => ?_⟩
    simp only [folder, List.mem_cons, List.not_mem_nil, or_false] at he
    rcases he with rfl | rfl | rfl
    · refine ⟨rfl, hname "mode" (by decide), trivial, ?_⟩
      rintro v ⟨⟩
      show Line.IsPlain "big"
      exact Line.isPlain_of_all (by decide) (by decide) (by decide)
    · refine ⟨rfl, hname "show all" (by decide), trivial, ?_⟩
      rintro v ⟨⟩
      trivial
    · refine ⟨rfl, hname "tint" (by decide), rfl, ?_⟩
      rintro v ⟨⟩
      show Line.IsPlain "lightred"
      exact Line.isPlain_of_all (by decide) (by decide) (by decide)

/-- What was written for the first file makes the second one show the same. -/
theorem parse_draft_filed :
    ∃ text, (firstFile.draft {} false).result = .ok text ∧
      ∃ after report, (secondFile.parse {} "app.conf" (Utf8.encode text.toList)).result =
          (after, {}, report) ∧
        report.warnings = [] ∧ report.rejected = none ∧ after.versionRead = 3 ∧
        after.shown = [
          ("[keys", [("#depth", some "-7"), ("[other", none), ("\\note", some " a = 'b' ")]),
          ("look",
            [("mode", some "big"), ("show all", some "on"), ("tint", some "lightred")])] := by
  have hreachable : Registry.Reachable { env := { dir := "/etc" }, documents := [firstFile] } :=
    ⟨{ dir := "/etc" }, filing, {}, rfl⟩
  have hsettings : ({} : Settings).CanWrite := ⟨by decide, by decide, by decide⟩
  have hform : secondFile.SameForm firstFile := ⟨rfl, rfl⟩
  have hshown : firstFile.shown = [
      ("[keys", [("#depth", some "-7"), ("[other", none), ("\\note", some " a = 'b' ")]),
      ("look", [("mode", some "big"), ("show all", some "on"), ("tint", some "lightred")])] := by
    decide +kernel
  obtain ⟨text, hdraft, after, report, hresult, hwarnings, hrejected, hversion, hafter⟩ :=
    Document.parse_draft hreachable (List.mem_singleton_self firstFile) canWrite_firstFile hsettings
      hform false {} "app.conf"
  exact ⟨text, hdraft, after, report, hresult, hwarnings, hrejected, hversion, hafter.trans hshown⟩

end TypedConfig
