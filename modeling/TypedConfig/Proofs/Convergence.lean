import TypedConfig.Proofs.Confinement
import TypedConfig.Proofs.Direct

/-!
# Where a reload leads

What a reload makes of an option follows from the text and from how the file is defined, and not
from the values that the options held before, as long as each line asks for a value of its own: a
text that flips a switch or counts on from the current value (`Domain.IsRelative`) does not, and a
refused line leaves the old value in place. So two files of one plan that reload the same text end
with the same values, and a second reload changes nothing (`Document.converges_of_reload`).

That no line was refused is read off the report: a refused value is warned of, whichever values the
lines before it have left (`Intake.accepts_of_takeLines`).
-/

namespace TypedConfig

/-- What there is to an option besides its value, as far as a reload goes. -/
def Entry.plan (e : Entry) : (String × Domain × Bool × Option VetoCheck) × Option Value :=
  (e.form, e.default)

/-- What there is to a section besides the values of its options, as far as a reload goes. -/
def Section.plan (s : Section) :
    String × List ((String × Domain × Bool × Option VetoCheck) × Option Value) :=
  (s.name, s.entries.map Entry.plan)

namespace Entry

/-- An input that asks the option for a value of its own. -/
def TakesOutright (e : Entry) (input : Option String) : Prop :=
  ∀ text, input = some text → ¬ e.domain.IsRelative text

/-- The value after a reload in which the option has these inputs. -/
def reloadedValue (e : Entry) (inputs : List (Option String)) : Option Value :=
  if inputs.isEmpty then e.default else (e.setAll inputs).value

variable {e f : Entry}

/-- Without a check, what an input asks for depends on the domain alone. -/
theorem valueFor?_of_no_check (h : e.check = none) (input : Option String) :
    e.valueFor? input = match input with
      | none => if e.nullable then some none else none
      | some text => (e.domain.accept? e.value text).map some := by
  unfold valueFor?
  rw [h]
  rfl

/-- What an input asks for is the same for all options of one plan, whatever they hold. -/
theorem valueFor?_of_plan_eq (hplan : e.plan = f.plan) (hcheck : e.check = none)
    {input : Option String} (h : e.TakesOutright input) :
    e.valueFor? input = f.valueFor? input := by
  simp only [plan, form, Prod.mk.injEq] at hplan
  obtain ⟨⟨-, hdomain, hnullable, hchecks⟩, -⟩ := hplan
  rw [valueFor?_of_no_check hcheck, valueFor?_of_no_check (hchecks ▸ hcheck), hnullable]
  cases input with
  | none => rfl
  | some text =>
    dsimp only
    rw [Domain.accept?_of_not_relative (h text rfl) e.value f.value, hdomain]

/-- Inputs that are accepted outright lead all options of one plan to the same value. The first of
them already does, so where there is none the options have to agree from the start. -/
theorem setAll_value_of_plan_eq {inputs : List (Option String)} (hplan : e.plan = f.plan)
    (hcheck : e.check = none)
    (hinputs : ∀ input ∈ inputs, e.TakesOutright input ∧ (e.valueFor? input).isSome)
    (hempty : inputs = [] → e.value = f.value) :
    (e.setAll inputs).value = (f.setAll inputs).value := by
  induction inputs generalizing e f with
  | nil => exact hempty rfl
  | cons input inputs ih =>
    obtain ⟨houtright, hsome⟩ := hinputs input (List.mem_cons_self ..)
    obtain ⟨v, hv⟩ := Option.isSome_iff_exists.1 hsome
    have he : (e.set input).result.1 = e.put .value v := by
      rw [set_entry, hv, Option.getD_some]
    have hf : (f.set input).result.1 = f.put .value v := by
      rw [set_entry, ← valueFor?_of_plan_eq hplan hcheck houtright, hv, Option.getD_some]
    show ((e.set input).result.1.setAll inputs).value = ((f.set input).result.1.setAll inputs).value
    rw [he, hf]
    refine ih hplan hcheck (fun other hother => ?_) fun _ => rfl
    obtain ⟨houtright', hsome'⟩ := hinputs other (List.mem_cons_of_mem _ hother)
    have hsame : e.valueFor? other = (e.put .value v).valueFor? other :=
      valueFor?_of_plan_eq (e := e) (f := e.put .value v) rfl hcheck houtright'
    exact ⟨houtright', hsame ▸ hsome'⟩

/-- A reload with inputs accepted outright leads all options of one plan to the same value. -/
theorem reloadedValue_of_plan_eq {inputs : List (Option String)} (hplan : e.plan = f.plan)
    (hcheck : e.check = none)
    (hinputs : ∀ input ∈ inputs, e.TakesOutright input ∧ (e.valueFor? input).isSome) :
    e.reloadedValue inputs = f.reloadedValue inputs := by
  unfold reloadedValue
  cases inputs with
  | nil => exact congrArg (fun p => p.2) hplan
  | cons input inputs => exact setAll_value_of_plan_eq hplan hcheck hinputs nofun

/-- Without a check, an input that asks for no value is refused as invalid. -/
theorem set_of_valueFor?_eq_none (hcheck : e.check = none) {input : Option String}
    (h : e.valueFor? input = none) :
    (e.set input).result.2 = .error (.invalidValue e.fullName (input.getD nullText)) := by
  rw [valueFor?_of_no_check hcheck] at h
  unfold set
  rw [hcheck]
  cases input with
  | none =>
    have hnullable : ¬ e.nullable = true := by simpa using h
    simp only [storeInput, storeNull, if_neg hnullable]
    rfl
  | some text =>
    have hrefused : e.domain.accept? (e.get .value) text = none := Option.map_eq_none_iff.1 h
    simp only [storeInput, storeText, hrefused]
    rfl

end Entry

/-! ## Which texts are rejected -/

namespace Routing

/-- Whether a line rejects the text: a version line before the first header that names no version or
one that is too new. -/
def refuses (r : Routing) (c : Cursor) (text : List Char) : Bool :=
  match Line.ofText text, c.standing with
  | .option name raw, .outside =>
    name = Line.versionName && (Line.version? raw).all fun version => r.version < version
  | _, _ => false

/-- Only an option line in a section delivers anything. -/
theorem exists_of_step_eq_some {r : Routing} {c : Cursor} {text : List Char} {l : Delivery}
    (h : (r.step c text).2 = some l) :
    ∃ sectionName name raw, Line.ofText text = .option name raw ∧
      c.standing = .within sectionName ∧
      r.delivery? c sectionName name (Line.value raw) = some l := by
  unfold step at h
  split at h
  · cases h
  · split at h <;> cases h
  · next name raw sectionName hline hstanding =>
    exact ⟨sectionName, name, raw, hline, hstanding, h⟩
  · cases h
  · cases h
  · cases h

/-- Whether one of the lines rejects the text. -/
def rejects (r : Routing) : Cursor → List (List Char) → Bool
  | _, [] => false
  | c, line :: lines => r.refuses c line || r.rejects (r.step c line).1 lines

/-- Without a migration, the file's name says nothing about a line. -/
theorem step_of_none {r : Routing} (h : r.migration = none) (config : String) (c : Cursor)
    (text : List Char) : { r with config }.step c text = r.step c text := by
  have h' : { r with config }.migration = none := h
  unfold step standing migratedName delivery?
  simp only [migrate_of_none h, migrate_of_none h']
  rfl

/-- Without a migration the name of the file decides about no delivery. -/
theorem deliveries_of_none {r : Routing} (h : r.migration = none) (config : String) (c : Cursor)
    (lines : List (List Char)) : { r with config }.deliveries c lines = r.deliveries c lines := by
  induction lines generalizing c with
  | nil => rfl
  | cons line lines ih => rw [deliveries, deliveries, step_of_none h, ih]

/-- Nor does it decide about the rejection of a text. -/
theorem rejects_of_none {r : Routing} (h : r.migration = none) (config : String) (c : Cursor)
    (lines : List (List Char)) : { r with config }.rejects c lines = r.rejects c lines := by
  induction lines generalizing c with
  | nil => rfl
  | cons line lines ih =>
    rw [rejects, rejects, step_of_none h, ih]
    rfl

end Routing

/-- Whether bytes are rejected as a text of the file. -/
def Document.rejects (d : Document) (bytes : List UInt8) : Bool :=
  d.routing.rejects {} ((linesOf bytes).map Utf8.decode)

/-- A line with a value that its option refuses is answered with that refusal. -/
theorem Document.answer_of_refused {d : Document} (hplain : ∀ s ∈ d.sections, s.IsPlain)
    {sectionName option : String} {e : Entry} (he : d.option? sectionName option = some e)
    (hcheck : e.check = none) {input : Option String} (hnone : e.valueFor? input = none) :
    (d.onSection sectionName fun s => s.applyLine option input).result.2 =
      some (.error (.invalidValue e.fullName (input.getD nullText))) := by
  obtain ⟨s, hs, hentry⟩ := Option.bind_eq_some_iff.1 he
  have hread := (hplain s (Roster.mem_of_find?_eq_some hs)).1
  have hanswer := Entry.set_of_valueFor?_eq_none hcheck hnone
  unfold onSection
  rw [hs]
  simp only [Traced.result_bind, Traced.result_pure, Section.applyLine, hread, hentry,
    Section.onBody, Body.change, hanswer]
  rfl

/-- Deliveries leave plain sections plain. -/
theorem Document.isPlain_accept {d : Document} (h : ∀ s ∈ d.sections, s.IsPlain) (c : Cursor)
    (ls : List Delivery) : ∀ s ∈ (d.accept c ls).sections, s.IsPlain := by
  intro t ht
  have houtline : t.outline ∈ d.sections.map Section.outline := by
    rw [← Delivery.outline_foldl_applyIn ls h]
    exact List.mem_map_of_mem ht
  obtain ⟨s, hs, hst⟩ := List.mem_map.1 houtline
  have hhooks : s.hooks = t.hooks := congrArg (fun u => u.hooks) hst
  unfold Section.IsPlain
  rw [← hhooks]
  exact h s hs

namespace Intake

/-- A version line rejects the text if it holds no version, or one that is newer than the file's. -/
theorem rejected_takeVersion {t : Intake} (h : t.rejected = none) (origin line : String)
    (raw : Option String) :
    (t.takeVersion origin line raw).result.rejected.isSome =
      (Line.version? raw).all fun version => t.document.version < version := by
  unfold takeVersion
  cases Line.version? raw with
  | none => rfl
  | some version =>
    dsimp only
    by_cases hle : version ≤ t.document.version
    · have hkept : t.rejected.isSome = false := by
        rw [h]
        rfl
      rw [if_pos hle]
      exact hkept.trans (decide_eq_false (Nat.not_lt.2 hle)).symm
    · rw [if_neg hle]
      exact (decide_eq_true (Nat.not_le.1 hle)).symm

/-- Which line rejects a text follows from its routing. -/
theorem rejected_takeLine {t : Intake} (h : t.rejected = none) (origin : String)
    (text : List Char) :
    (t.takeLine origin text).result.rejected.isSome =
      t.document.routing.refuses t.cursor text := by
  unfold takeLine Routing.refuses
  -- The line is counted first, which neither the cursor nor the file shows.
  have hcursor : t.cursor = { t with linesRead := t.linesRead + 1 : Intake }.cursor := rfl
  have hdocument : t.document = { t with linesRead := t.linesRead + 1 : Intake }.document := rfl
  have hnone : { t with linesRead := t.linesRead + 1 : Intake }.rejected = none := h
  rw [hcursor, hdocument]
  generalize { t with linesRead := t.linesRead + 1 : Intake } = u at hnone ⊢
  have hkept : u.rejected.isSome = false := by
    rw [hnone]
    rfl
  dsimp only
  cases Line.ofText text with
  | skipped => exact hkept
  | unclosedHeader => exact hkept
  | header name =>
    dsimp only
    rw [(openSection_inside u origin _ name).1]
    exact hkept
  | option name raw =>
    have hstanding : u.cursor.standing = u.standing := rfl
    dsimp only
    rw [hstanding]
    cases u.standing with
    | astray => exact hkept
    | within sectionName =>
      dsimp only
      rw [rejected_takeOption]
      exact hkept
    | outside =>
      dsimp only
      by_cases hname : name = Line.versionName
      · rw [if_pos hname, rejected_takeVersion hnone, decide_eq_true hname, Bool.true_and]
        rfl
      · rw [if_neg hname]
        simp only [hname, decide_false, Bool.false_and]
        exact hkept

/-- Whether lines reject the text is known from where lines go. -/
theorem rejected_takeLines (origin : String) (lines : List (List Char)) {t : Intake}
    (h : t.rejected = none) :
    (takeLines origin lines t).result.rejected.isSome =
      t.document.routing.rejects t.cursor lines := by
  induction lines generalizing t with
  | nil =>
    show t.rejected.isSome = false
    rw [h]
    rfl
  | cons line lines ih =>
    have hline := rejected_takeLine h origin line
    simp only [takeLines, Routing.rejects, Traced.result_bind]
    by_cases hstops : (t.takeLine origin line).result.rejected.isSome
    · rw [if_pos hstops, ← hline, hstops]
      exact hstops
    · have hgoes : (t.takeLine origin line).result.rejected = none := by simpa using hstops
      obtain ⟨hcursor, hdocument⟩ := takeLine_spec t origin line hgoes
      rw [if_neg hstops, ih hgoes, ← hline, hgoes, hcursor, hdocument, Document.routing_accept]
      rfl

/-! ## Warnings -/

/-- A warning leaves those before it. -/
theorem warnings_subset_warn (t : Intake) (origin : String) (kind : WarningKind)
    (line reason : String) : t.warnings ⊆ (t.warn origin kind line reason).result.warnings :=
  List.subset_append_left t.warnings _

/-- A header leaves the warnings before it. -/
theorem warnings_subset_openSection (t : Intake) (origin line name : String) :
    t.warnings ⊆ (t.openSection origin line name).result.warnings := by
  obtain ⟨announced, hmigrate⟩ := migrate_result t origin (t.lineData name none none)
  unfold openSection
  simp only [Traced.result_bind, hmigrate]
  split
  · exact List.Subset.refl _
  · exact warnings_subset_warn { t with announced, standing := .astray } origin _ line _

/-- A version line makes no warning, since a bad one rejects the text. -/
theorem warnings_takeVersion (t : Intake) (origin line : String) (raw : Option String) :
    (t.takeVersion origin line raw).result.warnings = t.warnings := by
  unfold takeVersion
  split
  · rfl
  · dsimp only
    split <;> rfl

/-- An option line leaves the warnings before it. -/
theorem warnings_subset_takeOption (t : Intake) (origin line sectionName name : String)
    (value : Option String) :
    t.warnings ⊆ (t.takeOption origin line sectionName name value).result.warnings := by
  obtain ⟨announced, hmigrate⟩ :=
    migrate_result t origin (t.lineData sectionName (some name) value)
  unfold takeOption
  simp only [Traced.result_bind, hmigrate]
  split
  · exact List.Subset.refl _
  · simp only [Traced.result_bind]
    split
    · exact List.subset_append_left t.warnings _
    · exact List.subset_append_left t.warnings _
    · exact List.Subset.refl _

/-- A line takes no warning back. -/
theorem warnings_subset_takeLine (t : Intake) (origin : String) (text : List Char) :
    t.warnings ⊆ (t.takeLine origin text).result.warnings := by
  unfold takeLine
  dsimp only
  split
  · exact List.Subset.refl _
  · exact warnings_subset_warn { t with linesRead := t.linesRead + 1 } origin _ _ _
  · exact warnings_subset_openSection { t with linesRead := t.linesRead + 1 } origin _ _
  · split
    · split
      · rw [warnings_takeVersion]
        exact List.Subset.refl _
      · exact warnings_subset_warn { t with linesRead := t.linesRead + 1 } origin _ _ _
    · exact List.Subset.refl _
    · exact warnings_subset_takeOption { t with linesRead := t.linesRead + 1 } origin _ _ _ _

/-- Lines leave the warnings before them. -/
theorem warnings_subset_takeLines (origin : String) (lines : List (List Char)) (t : Intake) :
    t.warnings ⊆ (takeLines origin lines t).result.warnings := by
  induction lines generalizing t with
  | nil => exact List.Subset.refl _
  | cons line lines ih =>
    have hline := warnings_subset_takeLine t origin line
    simp only [takeLines, Traced.result_bind]
    split
    · exact hline
    · exact List.Subset.trans hline (ih _)

/-- A refused value is warned of. -/
theorem exists_warning_of_takeOption {t : Intake} (hplain : ∀ s ∈ t.document.sections, s.IsPlain)
    {sectionName name : String} {value : Option String} {l : Delivery}
    (hl : t.document.routing.delivery? t.cursor sectionName name value = some l) {e : Entry}
    (he : t.document.option? l.sectionName l.option = some e) (hcheck : e.check = none)
    (hnone : e.valueFor? l.value = none) (origin line : String) :
    ∃ w ∈ (t.takeOption origin line sectionName name value).result.warnings,
      w.kind = .invalidValue := by
  obtain ⟨announced, hmigrate⟩ :=
    migrate_result t origin (t.lineData sectionName (some name) value)
  have hdata : t.document.routing.lineData t.cursor sectionName (some name) value =
      t.lineData sectionName (some name) value := rfl
  unfold Routing.delivery? at hl
  rw [hdata] at hl
  unfold takeOption
  simp only [Traced.result_bind, hmigrate]
  generalize t.document.routing.migrate t.cursor _ = data at hl ⊢
  dsimp only at hl ⊢
  by_cases hempty : data.option.getD "" = ""
  · rw [if_pos hempty] at hl
    cases hl
  · rw [if_neg hempty] at hl
    obtain rfl := Option.some.inj hl
    have hanswer := Document.answer_of_refused hplain he hcheck hnone
    simp only [if_neg hempty, Traced.result_bind]
    generalize (t.document.onSection sectionName _).result = x at hanswer ⊢
    obtain ⟨d, answer⟩ := x
    dsimp only at hanswer
    subst hanswer
    exact ⟨_, List.mem_append_right _ (List.mem_singleton_self _), rfl⟩

/-- A line with a value that its option refuses leaves a warning. -/
theorem exists_warning_of_takeLine {t : Intake} (hplain : ∀ s ∈ t.document.sections, s.IsPlain)
    {text : List Char} {l : Delivery}
    (hl : (t.document.routing.step t.cursor text).2 = some l) {e : Entry}
    (he : t.document.option? l.sectionName l.option = some e) (hcheck : e.check = none)
    (hnone : e.valueFor? l.value = none) (origin : String) :
    ∃ w ∈ (t.takeLine origin text).result.warnings, w.kind = .invalidValue := by
  unfold takeLine
  -- The line is counted first, which neither the cursor nor the file shows.
  have hcursor : t.cursor = { t with linesRead := t.linesRead + 1 : Intake }.cursor := rfl
  have hdocument : t.document = { t with linesRead := t.linesRead + 1 : Intake }.document := rfl
  rw [hcursor, hdocument] at hl
  rw [hdocument] at hplain he
  generalize { t with linesRead := t.linesRead + 1 : Intake } = u at hplain hl he ⊢
  obtain ⟨sectionName, name, raw, hline, hin, hdelivery⟩ := Routing.exists_of_step_eq_some hl
  have hstanding : u.standing = .within sectionName := hin
  dsimp only
  rw [hline]
  dsimp only
  rw [hstanding]
  exact exists_warning_of_takeOption hplain hdelivery he hcheck hnone origin _

/-- Where no value is warned of, each line that asks an option outright for a value asks for one
that the option takes. The induction is on the lines: those before may have changed the option, but
not what the line asks for. -/
theorem accepts_of_takeLines (origin : String) (lines : List (List Char)) {t : Intake}
    (hplain : ∀ s ∈ t.document.sections, s.IsPlain)
    (hgoes : (takeLines origin lines t).result.rejected = none)
    (hvalid : ∀ w ∈ (takeLines origin lines t).result.warnings, w.kind ≠ .invalidValue)
    {l : Delivery} (hl : l ∈ t.document.routing.deliveries t.cursor lines) {e : Entry}
    (he : t.document.option? l.sectionName l.option = some e) (hcheck : e.check = none)
    (houtright : e.TakesOutright l.value) : (e.valueFor? l.value).isSome := by
  induction lines generalizing t e with
  | nil => cases hl
  | cons line lines ih =>
    simp only [takeLines, Traced.result_bind] at hgoes hvalid
    have hline : ¬ (t.takeLine origin line).result.rejected.isSome = true := by
      intro hstops
      rw [if_pos hstops, Traced.result_pure] at hgoes
      rw [hgoes] at hstops
      cases hstops
    rw [if_neg hline] at hgoes hvalid
    obtain ⟨hcursor, hdocument⟩ := takeLine_spec t origin line (by simpa using hline)
    rcases List.mem_append.1 hl with hl | hl
    · -- The line itself asks for the value: did the option not take it, a warning would say so.
      by_contra hnone
      obtain ⟨w, hw, hkind⟩ := exists_warning_of_takeLine hplain (Option.mem_toList.1 hl) he hcheck
        (by simpa using hnone) origin
      exact hvalid w (warnings_subset_takeLines origin lines _ hw) hkind
    · -- A line further down does, and the option has at most another value and mark by then.
      have hafter : ∃ value loaded, (t.takeLine origin line).result.document.option?
          l.sectionName l.option = some { e with value, loaded } := by
        rw [hdocument, Document.option?_accept hplain, he]
        exact ⟨_, _, rfl⟩
      obtain ⟨value, loaded, hafter⟩ := hafter
      have hsame : e.valueFor? l.value = { e with value, loaded : Entry }.valueFor? l.value :=
        Entry.valueFor?_of_plan_eq (e := e) (f := { e with value, loaded }) rfl hcheck houtright
      have hdeliveries : l ∈ (t.takeLine origin line).result.document.routing.deliveries
          (t.takeLine origin line).result.cursor lines := by
        rw [hcursor, hdocument, Document.routing_accept]
        exact hl
      have hplain' : ∀ s ∈ (t.takeLine origin line).result.document.sections, s.IsPlain := by
        rw [hdocument]
        exact Document.isPlain_accept hplain _ _
      rw [hsame]
      exact ih hplain' hgoes hvalid hdeliveries hafter hcheck houtright

end Intake

namespace Document

/-! ## The reload of one file -/

/-- The deliveries that a text makes. One that is rejected makes none. -/
def taken (d : Document) (bytes : List UInt8) : List Delivery :=
  if d.rejects bytes then [] else d.deliveries bytes

/-- The value of the option of a name in the section of a name. -/
def value? (d : Document) (sectionName option : String) : Option (Option Value) :=
  (d.option? sectionName option).map fun e => e.value

/-- A text makes a delivery if it is not rejected and a line delivers it. -/
theorem mem_taken {d : Document} {bytes : List UInt8} {l : Delivery} :
    l ∈ d.taken bytes ↔ d.rejects bytes = false ∧ l ∈ d.deliveries bytes := by
  unfold taken
  cases d.rejects bytes <;> simp

/-- Whether a text is rejected is known before it is taken in. -/
theorem rejected_takeIn (d : Document) (origin : String) (bytes : List UInt8) :
    (d.takeIn origin bytes).result.rejected.isSome = d.rejects bytes :=
  Intake.rejected_takeLines origin _ (t := { document := { d with versionRead := 1 } }) rfl

/-- What the report of a text tells about its rejection and its warnings is what its lines give. -/
theorem report_parse (d : Document) (disk : Disk) (origin : String) (bytes : List UInt8) :
    (d.parse disk origin bytes).result.2.2.rejected.isSome = d.rejects bytes ∧
      (d.parse disk origin bytes).result.2.2.warnings =
        (d.takeIn origin bytes).result.warnings := by
  obtain ⟨backup, hreport⟩ := d.exists_report_parse disk origin bytes
  rw [hreport]
  exact ⟨d.rejected_takeIn origin bytes, rfl⟩

/-- A text is still there after it was taken in, rejected or not. -/
theorem read?_parse (d : Document) (disk : Disk) (origin : String) (bytes : List UInt8) :
    (d.parse disk origin bytes).result.2.1.read? origin = disk.read? origin := by
  unfold parse
  simp only [Traced.result_bind]
  split
  · unfold Disk.read? Disk.open?
    rw [Traced.result_bind, ← Backup.stat?_make disk origin]
    rfl
  · rfl

/-- A text does to a file what its deliveries do, if it makes any. -/
theorem exists_accept_of_parse (d : Document) (disk : Disk) (origin : String)
    (bytes : List UInt8) :
    ∃ c, (d.parse disk origin bytes).result.1 = d.accept c (d.taken bytes) := by
  have hrejected := (report_parse d disk origin bytes).1
  unfold taken
  cases hrejects : d.rejects bytes with
  | false =>
    have hnone : (d.parse disk origin bytes).result.2.2.rejected = none := by
      simpa [hrejects] using hrejected
    exact ⟨_, parse_eq_accept d disk origin bytes hnone⟩
  | true =>
    obtain ⟨versionRead, hkept⟩ := (rejection_of_parse (hrejected.trans hrejects)).kept
    exact ⟨⟨versionRead, .outside⟩, hkept⟩

/-- Without read hooks all options lose their marks. -/
theorem option?_markMissing {d : Document} (hread : ∀ s ∈ d.sections, s.hooks.read = none)
    (sectionName option : String) :
    d.markMissing.option? sectionName option =
      (d.option? sectionName option).map fun e => { e with loaded := false } := by
  have hfind : Roster.find? sectionName (d.sections.map Section.unmark) = _ :=
    Roster.find?_map Section.name_unmark sectionName d.sections
  show (Roster.find? sectionName (d.sections.map Section.unmark)).bind _ = _
  rw [hfind]
  unfold option? section?
  cases hs : Roster.find? sectionName d.sections with
  | none => rfl
  | some s => exact Section.entry?_unmark (hread s (Roster.mem_of_find?_eq_some hs)) option

/-- Without read hooks all options without marks are reset. -/
theorem option?_resetMissing {d : Document} (hread : ∀ s ∈ d.sections, s.hooks.read = none)
    (sectionName option : String) :
    d.resetMissing.result.option? sectionName option =
      (d.option? sectionName option).map fun e => e.resetMissing.result := by
  have hname (s : Section) : s.resetMissing.result.name = s.name :=
    (Section.Evolves.resetMissing s).names_eq.2
  have hfind := Roster.find?_map (f := fun s => s.resetMissing.result) hname sectionName d.sections
  unfold option? section?
  simp only [resetMissing, Traced.result_bind, Traced.result_pure, Traced.result_each, hfind]
  cases hs : Roster.find? sectionName d.sections with
  | none => rfl
  | some s => exact Section.entry?_resetMissing (hread s (Roster.mem_of_find?_eq_some hs)) option

/-- Sections without hooks are so without marks too. -/
theorem isPlain_markMissing {d : Document} (h : ∀ s ∈ d.sections, s.IsPlain) :
    ∀ s ∈ d.markMissing.sections, s.IsPlain := by
  intro t ht
  obtain ⟨s, hs, rfl⟩ := List.mem_map.1 ht
  show s.unmark.IsPlain
  unfold Section.IsPlain
  rw [Section.hooks_unmark]
  exact h s hs

/-- Marks do not decide which text is rejected and what it delivers. -/
theorem taken_markMissing (d : Document) (bytes : List UInt8) :
    d.markMissing.taken bytes = d.taken bytes := by
  unfold taken rejects deliveries
  rw [routing_markMissing]

/-- A successful reload takes in the text that is on the disk afterwards. -/
theorem exists_parse_of_reload {d d' : Document} {env : Environment} {disk disk' : Disk}
    {report : Report} (h : (d.reload env disk).result = (d', disk', .ok report))
    {content : List UInt8} (hcontent : disk'.read? (d.path env) = some content) :
    ∃ stamp stamp' disk₁ p, ({ d.markMissing with stamp : Document }.parse disk₁ (d.path env)
        content).result = p ∧ d' = { p.1 with stamp := stamp' : Document }.resetMissing.result ∧
      report.warnings = p.2.2.warnings := by
  obtain ⟨x, hloaded, hreset⟩ := exists_load_of_reload h
  obtain ⟨stamp, disk₁, made, found, p, -, hread, hparse, hx, rfl, rfl⟩ :=
    exists_parse_of_load hloaded
  -- The text that was found is there still.
  have hkept := read?_parse { d.markMissing with stamp } disk₁ (d.path env) found
  have hfound : p.2.1.read? (d.path env) = some found := by
    rw [← hread, ← hparse]
    exact hkept
  obtain rfl := Option.some.inj (hfound.symm.trans hcontent)
  exact ⟨stamp, _, disk₁, p, hparse, by rw [hreset, hx]; rfl, rfl⟩

/-- A file after a successful reload. -/
theorem exists_eq_of_reload {d d' : Document} {env : Environment} {disk disk' : Disk}
    {report : Report} (h : (d.reload env disk).result = (d', disk', .ok report))
    {content : List UInt8} (hcontent : disk'.read? (d.path env) = some content) :
    ∃ c stamp, d' =
      { (d.markMissing.accept c (d.taken content)).resetMissing.result with stamp } := by
  obtain ⟨stamp, stamp', disk₁, p, hparse, hreset, -⟩ := exists_parse_of_reload h hcontent
  obtain ⟨c, haccept⟩ :=
    exists_accept_of_parse { d.markMissing with stamp } disk₁ (d.path env) content
  rw [hparse] at haccept
  have htaken : ({ d.markMissing with stamp : Document } : Document).taken content =
      d.taken content := d.taken_markMissing content
  refine ⟨c, stamp', ?_⟩
  rw [hreset, haccept, htaken]
  rfl

/-- An option after a successful reload. -/
theorem option?_reload {d d' : Document} (hwell : d.WellFormed)
    (hplain : ∀ s ∈ d.sections, s.IsPlain) {env : Environment} {disk disk' : Disk}
    {report : Report} (h : (d.reload env disk).result = (d', disk', .ok report))
    {content : List UInt8} (hcontent : disk'.read? (d.path env) = some content)
    (sectionName option : String) :
    d'.option? sectionName option = (d.option? sectionName option).map fun e =>
      let inputs := Delivery.valuesFor option
        ((d.taken content).filter fun l => l.sectionName = sectionName)
      { e with value := e.reloadedValue inputs, loaded := !inputs.isEmpty } := by
  obtain ⟨c, stamp, rfl⟩ := exists_eq_of_reload h hcontent
  have hunmarked := isPlain_markMissing hplain
  have hread : ∀ s ∈ (d.markMissing.accept c (d.taken content)).sections, s.hooks.read = none :=
    fun s hs => (isPlain_accept hunmarked c (d.taken content) s hs).1
  show (d.markMissing.accept c (d.taken content)).resetMissing.result.option? _ _ = _
  rw [option?_resetMissing hread, option?_accept hunmarked,
    option?_markMissing fun s hs => (hplain s hs).1, Option.map_map, Option.map_map]
  refine Option.map_congr fun e he => ?_
  obtain ⟨s, hs, hentry⟩ := Option.bind_eq_some_iff.1 he
  have hbody := hwell.sections s (Roster.mem_of_find?_eq_some hs)
  have hsound := (hbody.entries e (Roster.mem_of_find?_eq_some hentry)).sound
  exact Entry.resetMissing_of_inputs hsound _

/-- A reload leaves plain sections plain. -/
theorem isPlain_reload {d d' : Document} (hplain : ∀ s ∈ d.sections, s.IsPlain)
    {env : Environment} {disk disk' : Disk} {report : Report}
    (h : (d.reload env disk).result = (d', disk', .ok report)) {content : List UInt8}
    (hcontent : disk'.read? (d.path env) = some content) : ∀ s ∈ d'.sections, s.IsPlain := by
  obtain ⟨c, stamp, rfl⟩ := exists_eq_of_reload h hcontent
  intro t ht
  simp only [resetMissing, Traced.result_bind, Traced.result_pure, Traced.result_each] at ht
  obtain ⟨s, hs, rfl⟩ := List.mem_map.1 ht
  unfold Section.IsPlain
  rw [(Section.Evolves.resetMissing s).1]
  exact isPlain_accept (isPlain_markMissing hplain) c (d.taken content) s hs

/-- Where a reload warns of no value, each line that asks an option outright for a value asks for
one that the option takes. -/
theorem accepts_of_reload {d d' : Document} (hplain : ∀ s ∈ d.sections, s.IsPlain)
    {env : Environment} {disk disk' : Disk} {report : Report}
    (h : (d.reload env disk).result = (d', disk', .ok report)) {content : List UInt8}
    (hcontent : disk'.read? (d.path env) = some content)
    (hvalid : ∀ w ∈ report.warnings, w.kind ≠ .invalidValue) {l : Delivery}
    (hl : l ∈ d.taken content) {e : Entry} (he : d.option? l.sectionName l.option = some e)
    (hcheck : e.check = none) (houtright : e.TakesOutright l.value) :
    (e.valueFor? l.value).isSome := by
  obtain ⟨stamp, -, disk₁, p, hparse, -, hwarnings⟩ := exists_parse_of_reload h hcontent
  have hlines := (report_parse { d.markMissing with stamp } disk₁ (d.path env) content).2
  rw [hparse, ← hwarnings] at hlines
  rw [hlines] at hvalid
  rw [← taken_markMissing, mem_taken] at hl
  -- The option is read without its mark, which no input asks about.
  have hunmarked :
      d.markMissing.option? l.sectionName l.option = some { e with loaded := false } := by
    rw [option?_markMissing fun s hs => (hplain s hs).1, he]
    rfl
  have hgoes : ({ d.markMissing with stamp : Document }.takeIn (d.path env)
      content).result.rejected = none := by
    have hrejected := rejected_takeIn { d.markMissing with stamp } (d.path env) content
    simpa using hrejected.trans hl.1
  exact Intake.accepts_of_takeLines (d.path env) ((linesOf content).map Utf8.decode)
    (t := { document := { d.markMissing with stamp, versionRead := 1 } })
    (e := { e with loaded := false }) (isPlain_markMissing hplain) hgoes hvalid hl.2 hunmarked
    hcheck houtright

/-! ## Files of one plan -/

/-- Files that are the same but for what their options hold. Their names may differ as long as there
is no migration, which would be told the name. -/
structure SamePlan (d f : Document) : Prop where
  version : d.version = f.version
  migration : d.migration = f.migration
  name : d.migration.isSome → d.name = f.name
  sections : Roster.names d.sections = Roster.names f.sections
  options : ∀ n o, (d.option? n o).map Entry.plan = (f.option? n o).map Entry.plan

/-- Files that are defined alike, with the same sections and the same options in these, are of one
plan. -/
theorem samePlan_of_map_eq {d f : Document} (hversion : d.version = f.version)
    (hmigration : d.migration = f.migration) (hname : d.migration.isSome → d.name = f.name)
    (h : d.sections.map Section.plan = f.sections.map Section.plan) : d.SamePlan f where
  version := hversion
  migration := hmigration
  name := hname
  sections := Roster.names_eq_of_map_eq (fun _ _ h => congrArg (fun p => p.1) h) h
  options n o := by
    have hsections := Roster.map_find?_of_map_eq (fun _ _ h => congrArg (fun p => p.1) h) h n
    unfold option? section?
    cases hs : Roster.find? n d.sections with
    | none =>
      rw [hs] at hsections
      rw [Option.map_eq_none_iff.1 hsections.symm]
    | some s =>
      rw [hs] at hsections
      obtain ⟨t, ht, hst⟩ := Option.map_eq_some_iff.1 hsections.symm
      rw [ht]
      have hentries : t.entries.map Entry.plan = s.entries.map Entry.plan :=
        congrArg (fun p => p.2) hst
      exact (Roster.map_find?_of_map_eq (fun _ _ h => congrArg (fun p => p.1.1) h) hentries o).symm

/-- A text that asks no option for a change from its current value. -/
def SetsOutright (d : Document) (bytes : List UInt8) : Prop :=
  ∀ l ∈ d.taken bytes, ∀ e, d.option? l.sectionName l.option = some e → e.TakesOutright l.value

/-- A text makes the same deliveries to files of one plan. -/
theorem SamePlan.taken_eq {d f : Document} (h : d.SamePlan f) (bytes : List UInt8) :
    d.taken bytes = f.taken bytes := by
  have hrouting : d.routing = { f.routing with config := d.name } := by
    unfold routing
    rw [h.version, h.migration, h.sections]
  unfold taken rejects deliveries
  rw [hrouting]
  cases hmigration : d.migration with
  | none =>
    have hnone : f.routing.migration = none := h.migration.symm.trans hmigration
    rw [Routing.rejects_of_none hnone, Routing.deliveries_of_none hnone]
  | some migration =>
    rw [h.name (by rw [hmigration]; rfl)]
    rfl

/-- A file is of one plan with what a reload makes of it. -/
theorem samePlan_reload {d d' : Document} (hwell : d.WellFormed)
    (hplain : ∀ s ∈ d.sections, s.IsPlain) {env : Environment} {disk disk' : Disk}
    {report : Report} (h : (d.reload env disk).result = (d', disk', .ok report))
    {content : List UInt8} (hcontent : disk'.read? (d.path env) = some content) :
    d.SamePlan d' := by
  have hoptions := option?_reload hwell hplain h hcontent
  have hname (s : Section) : s.resetMissing.result.name = s.name :=
    (Section.Evolves.resetMissing s).names_eq.2
  obtain ⟨c, stamp, rfl⟩ := exists_eq_of_reload h hcontent
  refine ⟨rfl, rfl, fun _ => rfl, ?_, fun n o => ?_⟩
  · calc Roster.names d.sections
      _ = Roster.names (d.sections.map Section.unmark) :=
        (Roster.names_map Section.name_unmark d.sections).symm
      _ = Roster.names (d.markMissing.accept c (d.taken content)).sections :=
        (Delivery.names_foldl (d.taken content) d.markMissing.sections).symm
      _ = Roster.names (d.markMissing.accept c (d.taken content)).resetMissing.result.sections := by
        simp only [resetMissing, Traced.result_bind, Traced.result_pure, Traced.result_each]
        exact (Roster.names_map hname _).symm
  · rw [hoptions, Option.map_map]
    rfl

/-- A text that is there is taken in by a reload. -/
theorem exists_reload {d : Document} {env : Environment} {disk : Disk} {content : List UInt8}
    (h : disk.read? (d.path env) = some content) :
    ∃ d' disk' report, (d.reload env disk).result = (d', disk', .ok report) ∧
      disk'.read? (d.path env) = some content := by
  obtain ⟨mode, modified, hstat, hmode⟩ := Disk.read?_eq_some_iff.1 h
  have hthere : disk.isThere (d.markMissing.path env) = true := by
    show (disk.stat? (d.path env)).isSome = true
    rw [hstat]
    rfl
  have hopen : disk.open? (d.markMissing.path env) = some (.file content mode modified) := by
    show (disk.stat? (d.path env)).filter _ = _
    rw [hstat, Option.filter_some, if_pos hmode]
  have hkept := read?_parse d.markMissing disk (d.path env) content
  have hload : ∃ x report, (d.markMissing.load env disk true).result =
      (x, (d.markMissing.parse disk (d.path env) content).result.2.1, .ok report) := by
    unfold load
    rw [bootstrap_of_isThere hthere]
    simp only [Traced.pure_bind, hopen]
    exact ⟨_, _, rfl⟩
  obtain ⟨x, report, hload⟩ := hload
  refine ⟨x.resetMissing.result, _, report, ?_, hkept.trans h⟩
  simp only [reload, Traced.result_bind, Traced.result_pure, hload]

/-- A reload succeeds, and each option has the value then that it has in another file. -/
def ReloadsTo (d : Document) (env : Environment) (disk : Disk) (f : Document) : Prop :=
  ∃ d' disk' report, (d.reload env disk).result = (d', disk', .ok report) ∧
    ∀ n o, d'.value? n o = f.value? n o

/-- Files of one plan end with the same values where one has reloaded a text that sets values
outright, and no value was refused then, and the other reloads the same text. -/
theorem reloadsTo_of_samePlan {d f : Document} (hd : d.WellFormed) (hf : f.WellFormed)
    (hplan : d.SamePlan f) (hplain : ∀ s ∈ d.sections, s.IsPlain)
    (hplain' : ∀ s ∈ f.sections, s.IsPlain)
    (hchecks : ∀ s ∈ d.sections, ∀ e ∈ s.entries, e.check = none)
    {env : Environment} {disk disk' : Disk} {d' : Document} {report : Report}
    (h : (d.reload env disk).result = (d', disk', .ok report)) {content : List UInt8}
    (hcontent : disk'.read? (d.path env) = some content)
    (hvalid : ∀ w ∈ report.warnings, w.kind ≠ .invalidValue) (houtright : d.SetsOutright content)
    {env₂ : Environment} {disk₂ : Disk} (hcontent₂ : disk₂.read? (f.path env₂) = some content) :
    f.ReloadsTo env₂ disk₂ d' := by
  obtain ⟨f', disk₂', report₂, h₂, hkept⟩ := exists_reload hcontent₂
  refine ⟨f', disk₂', report₂, h₂, fun n o => ?_⟩
  unfold value?
  rw [option?_reload hd hplain h hcontent, option?_reload hf hplain' h₂ hkept, ← hplan.taken_eq,
    Option.map_map, Option.map_map]
  have hoption := hplan.options n o
  cases he : d.option? n o with
  | none =>
    rw [he] at hoption
    rw [Option.map_eq_none_iff.1 hoption.symm]
  | some e =>
    rw [he] at hoption
    obtain ⟨e₂, he₂, hsame⟩ := Option.map_eq_some_iff.1 hoption.symm
    obtain ⟨s, hs, hentry⟩ := Option.bind_eq_some_iff.1 he
    have hcheck := hchecks s (Roster.mem_of_find?_eq_some hs) e (Roster.mem_of_find?_eq_some hentry)
    rw [he₂]
    refine congrArg some
      (Entry.reloadedValue_of_plan_eq hsame.symm hcheck fun input hinput => ?_).symm
    -- An input of the option is the value of a delivery to it.
    obtain ⟨l, hfound, rfl⟩ := List.mem_map.1 hinput
    obtain ⟨hfound, ho⟩ := List.mem_filter.1 hfound
    obtain ⟨hl, hn⟩ := List.mem_filter.1 hfound
    obtain rfl : l.option = o := of_decide_eq_true ho
    obtain rfl : l.sectionName = n := of_decide_eq_true hn
    have htakes := houtright l hl e he
    exact ⟨htakes, accepts_of_reload hplain h hcontent hvalid hl he hcheck htakes⟩

/-- Reloads converge to the text. Of two files of one plan that a host can bring about, with neither
checks nor hooks that take lines or make options, let one reload a text without a warning of an
invalid value, where no line of the text asks an option for a change from its current value. The
text is the one that is on the disk afterwards. Then the other file ends with the same values when
it reloads that text, whatever its options have held, and so does the first one when it reloads it
again. -/
theorem converges_of_reload {r r₂ : Registry} (hr : r.Reachable) (hr₂ : r₂.Reachable)
    {d f : Document} (hd : d ∈ r.documents) (hf : f ∈ r₂.documents) (hplan : d.SamePlan f)
    (hplain : ∀ s ∈ d.sections, s.IsPlain) (hplain₂ : ∀ s ∈ f.sections, s.IsPlain)
    (hchecks : ∀ s ∈ d.sections, ∀ e ∈ s.entries, e.check = none)
    {env env₂ : Environment} {disk disk' disk₂ : Disk} {d' : Document} {report : Report}
    (h : (d.reload env disk).result = (d', disk', .ok report)) {content : List UInt8}
    (hcontent : disk'.read? (d.path env) = some content)
    (hvalid : ∀ w ∈ report.warnings, w.kind ≠ .invalidValue) (houtright : d.SetsOutright content)
    (hcontent₂ : disk₂.read? (f.path env₂) = some content) :
    f.ReloadsTo env₂ disk₂ d' ∧ d'.ReloadsTo env disk' d' := by
  have hwell := hr.wellFormed.documents d hd
  refine ⟨reloadsTo_of_samePlan hwell (hr₂.wellFormed.documents f hf) hplan hplain hplain₂ hchecks h
    hcontent hvalid houtright hcontent₂, ?_⟩
  -- The file itself, after the reload, is another one of its plan.
  have hevolves : d.EvolvesIn (fun _ => True) env.palette _ _ := .reload d env disk
  rw [h] at hevolves
  have hsame := samePlan_reload hwell hplain h hcontent
  have hpath : d'.path env = d.path env := by
    unfold path fileName
    rw [hevolves.name_eq]
  exact reloadsTo_of_samePlan hwell (hevolves.wellFormed hwell) hsame hplain
    (isPlain_reload hplain h hcontent) hchecks h hcontent hvalid houtright (by rwa [hpath])

end Document

/-- A run that makes the second file out of the first one. -/
def refiling : List Operation :=
  filing ++ [
    .setOption "app.[keys.#depth" (some "3"),
    .setOption "app.[keys.[other" (some "x"),
    .setOption "app.[keys.\\note" (some ""),
    .setOption "app.look.mode" (some "plain"),
    .setOption "app.look.show all" (some "off"),
    .setOption "app.look.tint" (some "16")]

/-- A text of an older version with a number that is too large, two lines for one option, a color,
and a line for no option. -/
def filedText : List UInt8 :=
  Utf8.encode ("config_version = 2\n[[keys]\n\\#depth = 12\n[look]\nmode = plain\ntint = blue\n" ++
    "mode = big\nwidth = 1\n").toList

/-- A disk with that text. -/
def filedDisk : Disk where
  nodes := [(["etc"], .directory), (["etc", "app.conf"], .file filedText 384 (.second 0))]

/-- No line of the text asks for a change from the current value. -/
theorem setsOutright_firstFile : firstFile.SetsOutright filedText := by
  have htaken : firstFile.taken filedText = [⟨"[keys", "#depth", some "12"⟩,
      ⟨"look", "mode", some "plain"⟩, ⟨"look", "tint", some "blue"⟩, ⟨"look", "mode", some "big"⟩,
      ⟨"look", "width", some "1"⟩] := by decide +kernel
  have hall : ∀ l ∈ firstFile.taken filedText, ∀ e ∈ firstFile.option? l.sectionName l.option,
      ∀ text ∈ l.value, ¬ e.domain.IsRelative text := by
    rw [htaken]
    decide +kernel
  exact hall

/-- The first file and the second one end with the same values, and these stay when the first one
reloads the text again. The number that is too large ends as the greatest one, of the two lines for
the variant the later one counts, and what has no line has its default value. -/
theorem converges_of_reload_filed :
    ∃ d' disk' report, (firstFile.reload { dir := "/etc" } filedDisk).result =
        (d', disk', .ok report) ∧
      (d'.value? "[keys" "#depth" = some (some (.integer 9)) ∧
        d'.value? "[keys" "[other" = some none ∧ d'.value? "look" "mode" = some (some (.enum 1))) ∧
      secondFile.ReloadsTo { dir := "/etc" } filedDisk d' ∧
      d'.ReloadsTo { dir := "/etc" } disk' d' := by
  have hreachable : Registry.Reachable { env := { dir := "/etc" }, documents := [firstFile] } :=
    ⟨{ dir := "/etc" }, filing, {}, rfl⟩
  have hreachable₂ : Registry.Reachable { env := { dir := "/etc" }, documents := [secondFile] } :=
    ⟨{ dir := "/etc" }, refiling, {}, rfl⟩
  have hplan : firstFile.SamePlan secondFile :=
    Document.samePlan_of_map_eq rfl rfl nofun rfl
  have hplain : (∀ s ∈ firstFile.sections, s.IsPlain) ∧ ∀ s ∈ secondFile.sections, s.IsPlain := by
    unfold Section.IsPlain
    decide +kernel
  have hchecks : ∀ s ∈ firstFile.sections, ∀ e ∈ s.entries, e.check = none :=
    fun s hs e he => ((canWrite_firstFile.sections s hs).entries e he).check
  have htext : filedDisk.read? (secondFile.path { dir := "/etc" }) = some filedText := by
    decide +kernel
  have hrun : ((firstFile.reload { dir := "/etc" } filedDisk).result.2.2.toOption.any
        fun report => report.warnings.all fun w => w.kind != .invalidValue) = true ∧
      (firstFile.reload { dir := "/etc" } filedDisk).result.2.1.read?
        (firstFile.path { dir := "/etc" }) = some filedText ∧
      (firstFile.reload { dir := "/etc" } filedDisk).result.1.value? "[keys" "#depth" =
        some (some (.integer 9)) ∧
      (firstFile.reload { dir := "/etc" } filedDisk).result.1.value? "[keys" "[other" = some none ∧
      (firstFile.reload { dir := "/etc" } filedDisk).result.1.value? "look" "mode" =
        some (some (.enum 1)) := by decide +kernel
  generalize hresult : (firstFile.reload { dir := "/etc" } filedDisk).result = result
    at hrun ⊢
  obtain ⟨d', disk', answer⟩ := result
  obtain ⟨hok, hafter, hvalues⟩ := hrun
  cases answer with
  | error failure => cases hok
  | ok report =>
    have hvalid : ∀ w ∈ report.warnings, w.kind ≠ .invalidValue := fun w hw => by
      simpa using List.all_eq_true.1 hok w hw
    exact ⟨d', disk', report, rfl, hvalues,
      Document.converges_of_reload hreachable hreachable₂ (List.mem_singleton_self firstFile)
        (List.mem_singleton_self secondFile) hplan hplain.1 hplain.2 hchecks hresult hafter hvalid
        setsOutright_firstFile htext⟩

end TypedConfig
