import TypedConfig.Proofs.WellFormed

/-!
# Where the lines of a text go

Which option a line of a text is for does not depend on what the options hold: it follows from the
text and from what a file's `Routing` tells, which reading never changes. `Routing.step` says what
one line does to the `Cursor` and which `Delivery` it makes, if any, and `Routing.deliveries` are
the deliveries of all lines, in their order. A text that is not rejected does to the file's sections
what its deliveries do, one after the other, and nothing else (`Document.parse_eq_accept`).
-/

namespace TypedConfig

/-- What decides where a line goes, besides the lines before it. -/
structure Routing where
  config : String
  version : Nat
  migration : Option Migration
  /-- The names of the sections. -/
  sections : List String

/-- The routing of a file. -/
def Document.routing (d : Document) : Routing where
  config := d.name
  version := d.version
  migration := d.migration
  sections := Roster.names d.sections

/-- What the lines so far have to say about the next one. -/
structure Cursor where
  /-- The version of the text, as far as it is known. -/
  versionRead : Nat := 1
  standing : Standing := .outside

/-- A value for the option of a name in a section. -/
structure Delivery where
  sectionName : String
  option : String
  value : Option String
  deriving Repr, DecidableEq

namespace Routing

/-- A line after the migration, which is for texts of an older version only. -/
def migrate (r : Routing) (c : Cursor) (line : LineData) : LineData :=
  if r.version ≤ c.versionRead then line
  else match r.migration with
    | some migration => (migration.run line).result
    | none => line

/-- The data of a line for the migration. -/
def lineData (r : Routing) (c : Cursor) (sectionName : String) (option value : Option String) :
    LineData :=
  { config := r.config, versionRead := c.versionRead, sectionName, option, value }

/-- The name of a header after its migration. A migration to the empty name leaves it as it is. -/
def migratedName (r : Routing) (c : Cursor) (name : String) : String :=
  let data := r.migrate c (r.lineData c name none none)
  if data.sectionName = "" then name else data.sectionName

/-- Where the lines below a header stand. -/
def standing (r : Routing) (c : Cursor) (name : String) : Standing :=
  if r.migratedName c name ∈ r.sections then .within (r.migratedName c name) else .astray

/-- What an option line below the header of a section delivers, unless its migration drops it. -/
def delivery? (r : Routing) (c : Cursor) (sectionName name : String) (value : Option String) :
    Option Delivery :=
  let data := r.migrate c (r.lineData c sectionName (some name) value)
  let option := data.option.getD ""
  if option = "" then none else some ⟨sectionName, option, data.value⟩

/-- The cursor after a line, and what the line delivers. -/
def step (r : Routing) (c : Cursor) (text : List Char) : Cursor × Option Delivery :=
  match Line.ofText text, c.standing with
  | .header name, _ => ({ c with standing := r.standing c name }, none)
  | .option name raw, .outside =>
    if name = Line.versionName then
      ({ c with versionRead := (Line.version? raw).getD c.versionRead }, none)
    else (c, none)
  | .option name raw, .within sectionName => (c, r.delivery? c sectionName name (Line.value raw))
  | .option .., .astray => (c, none)
  | .skipped, _ => (c, none)
  | .unclosedHeader, _ => (c, none)

/-- The cursor after lines. -/
def advance (r : Routing) (c : Cursor) (lines : List (List Char)) : Cursor :=
  lines.foldl (fun c line => (r.step c line).1) c

/-- What lines deliver, in their order. -/
def deliveries (r : Routing) : Cursor → List (List Char) → List Delivery
  | _, [] => []
  | c, line :: lines => (r.step c line).2.toList ++ deliveries r (r.step c line).1 lines

end Routing

namespace Delivery

/-- The section that a delivery was made to. -/
def applyTo (l : Delivery) (s : Section) : Section :=
  (s.applyLine l.option l.value).result.1

/-- Sections after a delivery to the one of its name. -/
def applyIn (l : Delivery) (ss : List Section) : List Section :=
  match Roster.find? l.sectionName ss with
  | some s => Roster.replace l.sectionName (l.applyTo s) ss
  | none => ss

end Delivery

namespace Document

/-- The file after deliveries, which end with a cursor. -/
def accept (d : Document) (c : Cursor) (ls : List Delivery) : Document :=
  { d with
    versionRead := c.versionRead
    sections := ls.foldl (fun ss l => l.applyIn ss) d.sections }

/-- What bytes deliver in a file, in the order of the lines. -/
def deliveries (d : Document) (bytes : List UInt8) : List Delivery :=
  d.routing.deliveries {} ((linesOf bytes).map Utf8.decode)

end Document

/-! ## Deliveries keep the names -/

/-- A delivery keeps the hooks and the names of a section. -/
theorem Delivery.applyTo_spec (l : Delivery) (s : Section) :
    (l.applyTo s).hooks = s.hooks ∧ (l.applyTo s).name = s.name :=
  have h := Section.Evolves.applyLine s l.option l.value
  ⟨h.1, h.names_eq.2⟩

/-- A delivery keeps the names of all sections. -/
theorem Delivery.names_applyIn (l : Delivery) (ss : List Section) :
    Roster.names (l.applyIn ss) = Roster.names ss := by
  unfold applyIn
  split
  · next s hs =>
    exact Roster.names_replace ((l.applyTo_spec s).2.trans (Roster.name_of_find?_eq_some hs)) ss
  · rfl

/-- Deliveries keep the names of all sections. -/
theorem Delivery.names_foldl (ls : List Delivery) (ss : List Section) :
    Roster.names (ls.foldl (fun ss l => l.applyIn ss) ss) = Roster.names ss := by
  induction ls generalizing ss with
  | nil => rfl
  | cons l ls ih => exact (ih _).trans (l.names_applyIn ss)

/-- Where lines go stays the same while they are taken in. -/
theorem Document.routing_accept (d : Document) (c : Cursor) (ls : List Delivery) :
    (d.accept c ls).routing = d.routing := by
  simp only [routing, accept, Delivery.names_foldl]

/-- Deliveries may be made in two parts. -/
theorem Document.accept_accept (d : Document) (b c : Cursor) (ls ms : List Delivery) :
    (d.accept b ls).accept c ms = d.accept c (ls ++ ms) := by
  simp only [accept, List.foldl_append]

/-- A line for an option of a section is a delivery to it. -/
theorem Document.onSection_applyLine (d : Document) (c : Cursor) (l : Delivery)
    (hc : c.versionRead = d.versionRead) :
    (d.onSection l.sectionName fun s => s.applyLine l.option l.value).result.1 =
      d.accept c [l] := by
  simp only [onSection, accept, List.foldl_cons, List.foldl_nil, Delivery.applyIn, section?, hc]
  cases Roster.find? l.sectionName d.sections with
  | none => rfl
  | some s => rfl

/-! ## One line -/

namespace Intake

/-- The cursor of a state. -/
def cursor (t : Intake) : Cursor :=
  ⟨t.document.versionRead, t.standing⟩

/-- A state has the cursor of its version and its standing. -/
theorem cursor_eq {t : Intake} {c : Cursor} (hversion : t.document.versionRead = c.versionRead)
    (hstanding : t.standing = c.standing) : t.cursor = c := by
  unfold cursor
  rw [hversion, hstanding]

/-- A migration only notes that the user was told, and gives the line that the routing gives. -/
theorem migrate_result (t : Intake) (origin : String) (line : LineData) :
    ∃ announced, (t.migrate origin line).result =
      ({ t with announced }, t.document.routing.migrate t.cursor line) := by
  unfold Intake.migrate
  by_cases hversion : t.document.version ≤ t.document.versionRead
  · have hrouting : t.document.routing.migrate t.cursor line = line := if_pos hversion
    rw [if_pos hversion, hrouting]
    exact ⟨t.announced, rfl⟩
  · have hrouting : t.document.routing.migrate t.cursor line =
        match t.document.migration with
        | some migration => (migration.run line).result
        | none => line := if_neg hversion
    rw [if_neg hversion, hrouting]
    refine ⟨true, ?_⟩
    cases ha : t.announced <;> cases hm : t.document.migration <;> simp only [hm] <;> rfl

/-- A header moves the standing, and the file stays as it is. -/
theorem openSection_spec (t : Intake) (origin line name : String) :
    (t.openSection origin line name).result.document = t.document ∧
      (t.openSection origin line name).result.standing =
        t.document.routing.standing t.cursor name := by
  obtain ⟨announced, hmigrate⟩ := migrate_result t origin (t.lineData name none none)
  unfold Intake.openSection Routing.standing Routing.migratedName
  simp only [Traced.result_bind, hmigrate]
  have hdata :
      t.document.routing.lineData t.cursor name none none = t.lineData name none none := rfl
  rw [hdata]
  generalize t.document.routing.migrate t.cursor (t.lineData name none none) = data
  have hmem (name : String) :
      (t.document.section? name).isSome ↔ name ∈ t.document.routing.sections :=
    Roster.isSome_find?_iff
  -- What counts is the name after the migration, whatever it is.
  generalize (if data.sectionName = "" then name else data.sectionName) = target
  cases hs : t.document.section? target with
  | some s =>
    have hknown : target ∈ t.document.routing.sections := (hmem target).1 (by rw [hs]; rfl)
    rw [if_pos hknown]
    exact ⟨rfl, rfl⟩
  | none =>
    have hunknown : target ∉ t.document.routing.sections := by
      rw [← hmem, hs]
      exact Bool.false_ne_true
    rw [if_neg hunknown]
    exact ⟨rfl, rfl⟩

/-- A version line that is not refused sets the version. -/
theorem takeVersion_spec (t : Intake) (origin line : String) (raw : Option String)
    (h : (t.takeVersion origin line raw).result.rejected = none) :
    (t.takeVersion origin line raw).result.document =
        { t.document with versionRead := (Line.version? raw).getD t.document.versionRead } ∧
      (t.takeVersion origin line raw).result.standing = t.standing := by
  unfold Intake.takeVersion at h ⊢
  split at h
  · cases h
  · next version hversion =>
    rw [hversion]
    dsimp only at h ⊢
    split at h
    · next hle =>
      rw [if_pos hle]
      exact ⟨rfl, rfl⟩
    · cases h

/-- An option line makes its delivery, if it has one, and the next line stands where it stood. -/
theorem takeOption_spec (t : Intake) (origin line sectionName name : String)
    (value : Option String) :
    (t.takeOption origin line sectionName name value).result.document =
        t.document.accept t.cursor
          (t.document.routing.delivery? t.cursor sectionName name value).toList ∧
      (t.takeOption origin line sectionName name value).result.standing = t.standing := by
  obtain ⟨announced, hmigrate⟩ :=
    migrate_result t origin (t.lineData sectionName (some name) value)
  unfold Intake.takeOption Routing.delivery?
  simp only [Traced.result_bind, hmigrate]
  have hdata : t.document.routing.lineData t.cursor sectionName (some name) value =
      t.lineData sectionName (some name) value := rfl
  rw [hdata]
  generalize t.document.routing.migrate t.cursor _ = data
  by_cases hempty : data.option.getD "" = ""
  · simp only [if_pos hempty]
    exact ⟨rfl, rfl⟩
  · simp only [if_neg hempty, Traced.result_bind]
    have hdocument := t.document.onSection_applyLine t.cursor
      ⟨sectionName, data.option.getD "", data.value⟩ rfl
    dsimp only at hdocument
    generalize (t.document.onSection sectionName _).result = x at hdocument ⊢
    obtain ⟨d, answer⟩ := x
    subst hdocument
    dsimp only
    split
    · exact ⟨rfl, rfl⟩
    · exact ⟨rfl, rfl⟩
    · exact ⟨rfl, rfl⟩

/-- A line that does not reject the file moves the cursor and makes its delivery. -/
theorem takeLine_spec (t : Intake) (origin : String) (text : List Char)
    (h : (t.takeLine origin text).result.rejected = none) :
    (t.takeLine origin text).result.cursor = (t.document.routing.step t.cursor text).1 ∧
      (t.takeLine origin text).result.document =
        t.document.accept (t.document.routing.step t.cursor text).1
          (t.document.routing.step t.cursor text).2.toList := by
  unfold Intake.takeLine at h ⊢
  unfold Routing.step
  -- The line is counted first, which neither the cursor nor the file shows.
  have hdocument : t.document = { t with linesRead := t.linesRead + 1 : Intake }.document := rfl
  have hcursor : t.cursor = { t with linesRead := t.linesRead + 1 : Intake }.cursor := rfl
  rw [hdocument, hcursor]
  generalize { t with linesRead := t.linesRead + 1 : Intake } = u at h ⊢
  dsimp only at h ⊢
  cases hline : Line.ofText text with
  | skipped => exact ⟨rfl, rfl⟩
  | unclosedHeader => exact ⟨rfl, rfl⟩
  | header name =>
    obtain ⟨hdoc, hstanding⟩ :=
      openSection_spec u origin (String.ofList (Line.content text)) name
    exact ⟨cursor_eq (by rw [hdoc]; rfl) hstanding, hdoc⟩
  | option name raw =>
    rw [hline] at h
    dsimp only at h ⊢
    cases hstanding : u.standing with
    | outside =>
      have hcursor : u.cursor.standing = .outside := hstanding
      simp only [hstanding, hcursor] at h ⊢
      by_cases hname : name = Line.versionName
      · rw [if_pos hname] at h ⊢
        rw [if_pos hname]
        obtain ⟨hdoc, hstand⟩ :=
          takeVersion_spec u origin (String.ofList (Line.content text)) raw h
        exact ⟨cursor_eq (by rw [hdoc]; rfl) (hstand.trans hstanding), hdoc⟩
      · rw [if_neg hname, if_neg hname]
        exact ⟨cursor_eq rfl rfl, rfl⟩
    | astray =>
      have hcursor : u.cursor.standing = .astray := hstanding
      simp only [hcursor]
      exact ⟨cursor_eq rfl rfl, rfl⟩
    | within sectionName =>
      have hcursor : u.cursor.standing = .within sectionName := hstanding
      simp only [hcursor]
      obtain ⟨hdoc, hstand⟩ := takeOption_spec u origin (String.ofList (Line.content text))
        sectionName name (Line.value raw)
      exact ⟨cursor_eq (by rw [hdoc]; rfl) hstand, hdoc⟩

/-! ## All lines -/

/-- Lines that do not reject the file move the cursor and make their deliveries. The induction is on
the lines, and the routing is the same at each of them. -/
theorem takeLines_spec (origin : String) (lines : List (List Char)) (t : Intake)
    (h : (takeLines origin lines t).result.rejected = none) :
    (takeLines origin lines t).result.document =
      t.document.accept (t.document.routing.advance t.cursor lines)
        (t.document.routing.deliveries t.cursor lines) := by
  induction lines generalizing t with
  | nil => rfl
  | cons line lines ih =>
    simp only [takeLines, Traced.result_bind] at h ⊢
    split at h
    · next hrejected =>
      rw [Traced.result_pure] at h
      rw [h] at hrejected
      cases hrejected
    · next hgoes =>
      rw [if_neg hgoes]
      have hnone : (t.takeLine origin line).result.rejected = none := by simpa using hgoes
      obtain ⟨hcursor, hdocument⟩ := takeLine_spec t origin line hnone
      rw [ih _ h, hcursor, hdocument, Document.routing_accept, Document.accept_accept]
      rfl

end Intake

/-- The report of a text is that of its lines but for the backup. -/
theorem Document.exists_report_parse (d : Document) (disk : Disk) (origin : String)
    (bytes : List UInt8) :
    ∃ backup, (d.parse disk origin bytes).result.2.2 =
      { (d.takeIn origin bytes).result.report with backup } := by
  unfold parse
  simp only [Traced.result_bind]
  split
  · exact ⟨_, rfl⟩
  · exact ⟨_, rfl⟩

/-- A text that is not rejected leaves the disk as it is, and the report tells that. -/
theorem Document.parse_of_not_rejected (d : Document) (disk : Disk) (origin : String)
    (bytes : List UInt8) (h : (d.parse disk origin bytes).result.2.2.rejected = none) :
    (d.takeIn origin bytes).result.rejected = none ∧
      (d.parse disk origin bytes).result =
        ((d.takeIn origin bytes).result.document, disk, (d.takeIn origin bytes).result.report) := by
  simp only [parse, Traced.result_bind] at h ⊢
  split at h
  · next hrejected =>
    -- The report of a rejected text names the reason.
    have hsome : (d.takeIn origin bytes).result.rejected = none := h
    rw [hsome] at hrejected
    cases hrejected
  · next hnone =>
    rw [if_neg hnone]
    exact ⟨by simpa using hnone, rfl⟩

/-- A text that is not rejected does to a file what its deliveries do, and nothing else. -/
theorem Document.parse_eq_accept (d : Document) (disk : Disk) (origin : String)
    (bytes : List UInt8) (h : (d.parse disk origin bytes).result.2.2.rejected = none) :
    (d.parse disk origin bytes).result.1 =
      d.accept (d.routing.advance {} ((linesOf bytes).map Utf8.decode)) (d.deliveries bytes) := by
  obtain ⟨htaken, hresult⟩ := d.parse_of_not_rejected disk origin bytes h
  rw [hresult]
  exact Intake.takeLines_spec origin _ _ htaken

end TypedConfig
