import TypedConfig.Proofs.Rejection
import TypedConfig.Proofs.RoundTrip

/-!
# What the text of one option does to the others

A file is written with the text of each option on a line of its own. Whatever quotes, brackets and
marks stand in the text, its line is one for the option of its name, as long as no line feed breaks
it (`Line.ofText_optionLine_content`). So files that are written with two such texts of one option
have the same lines but for one, which delivers something to that option alone, and what is read
from them agrees on all other options (`Document.confines_of_not_mem_lineFeed`).

The quotes do not keep a line feed in. What stands behind it is read as a line by itself, and may
set an option that stands before in the section (`Document.not_confines_noted`).
-/

namespace TypedConfig

/-! ## Files that agree but for one option -/

namespace Document

/-- The option of a name in the section of a name. -/
def option? (d : Document) (sectionName option : String) : Option Entry :=
  (d.section? sectionName).bind fun s => s.entry? option

/-- Files that are the same but for the version that was read and the value of one option. -/
structure AgreeOff (sectionName option : String) (d d' : Document) : Prop where
  outline : d.outline = d'.outline
  options : ∀ n o, (n, o) ≠ (sectionName, option) → d.option? n o = d'.option? n o

/-- The file after a text was set in one of its options. -/
def setText (d : Document) (sectionName option text : String) : Document :=
  (d.onSection sectionName fun s => s.onBody (·.mutate option (.set (some text)))).result.1

/-- Whether it makes no difference to the other options which of two texts is set in one: the file
can be written with each, and what a second file takes in of the one and of the other agrees but for
that option. -/
def Confines (f g : Document) (settings : Settings) (defaults : Bool) (disk : Disk)
    (origin sectionName option text text' : String) : Prop :=
  ∃ written written',
    ((f.setText sectionName option text).draft settings defaults).result = .ok written ∧
      ((f.setText sectionName option text').draft settings defaults).result = .ok written' ∧
      AgreeOff sectionName option (g.parse disk origin (Utf8.encode written.toList)).result.1
        (g.parse disk origin (Utf8.encode written'.toList)).result.1

end Document

/-- A section without hooks and checks whose lines are read under its name and the names of its
options, whatever these hold. -/
structure Section.FitsLines (s : Section) : Prop where
  hooks : s.hooks = {}
  oneLine : Text.OneLine s.name.toList
  bracket : ']' ∉ s.name.toList
  equals : '=' ∉ s.name.toList
  names : ∀ e ∈ s.entries, Line.IsName e.name.toList
  checks : ∀ e ∈ s.entries, e.check = none

/-! ## One delivery -/

namespace Delivery

/-- A delivery is no value for another option. -/
theorem valuesFor_filter_append_cons {l : Delivery} {n o : String}
    (h : (n, o) ≠ (l.sectionName, l.option)) (ls ms : List Delivery) :
    valuesFor o ((ls ++ l :: ms).filter fun m => m.sectionName = n) =
      valuesFor o ((ls ++ ms).filter fun m => m.sectionName = n) := by
  have hother : ¬ (l.option = o ∧ l.sectionName = n) := fun hl => h (Prod.ext hl.2.symm hl.1.symm)
  simp only [valuesFor, List.filter_filter, List.filter_append]
  rw [List.filter_cons_of_neg (by simpa using hother)]

/-- Deliveries change no outline of a plain section. -/
theorem outline_accept (ls : List Delivery) {s : Section} (h : s.IsPlain) :
    (s.accept ls).outline = s.outline := by
  induction ls generalizing s with
  | nil => rfl
  | cons l ls ih =>
    have hplain : (l.applyTo s).IsPlain := by
      unfold Section.IsPlain
      rw [(l.applyTo_spec s).1]
      exact h
    exact (ih hplain).trans (outline_applyTo l h)

/-- In a plain section deliveries make of an option what its own lines do, and make no new one. -/
theorem entry?_accept_of_plain (ls : List Delivery) {s : Section} (h : s.IsPlain) (n : String) :
    Body.entry? (s.accept ls).toBody n = (s.entry? n).map fun e => { e with
      value := (e.setAll (valuesFor n ls)).value
      loaded := e.loaded || !(valuesFor n ls).isEmpty } := by
  cases he : s.entry? n with
  | some e => exact entry?_accept ls h.1 h.keepsToOption he
  | none =>
    have hname (e : Entry) : Named.name e.outline = Named.name e := rfl
    have hentries : (s.accept ls).entries.map Entry.outline = s.entries.map Entry.outline :=
      congrArg (fun t => t.entries) (outline_accept ls h)
    have hfind := congrArg (Roster.find? n) hentries
    rw [Roster.find?_map hname, Roster.find?_map hname] at hfind
    have hnone : Roster.find? n s.entries = none := he
    rw [hnone] at hfind
    exact Option.map_eq_none_iff.1 hfind

end Delivery

namespace Document

variable {d : Document}

/-- An option is after deliveries what those to it make of it. -/
theorem option?_accept (hplain : ∀ s ∈ d.sections, s.IsPlain) (c : Cursor) (ls : List Delivery)
    (n o : String) :
    (d.accept c ls).option? n o = (d.option? n o).map fun e => { e with
      value := (e.setAll (Delivery.valuesFor o (ls.filter fun l => l.sectionName = n))).value
      loaded := e.loaded ||
        !(Delivery.valuesFor o (ls.filter fun l => l.sectionName = n)).isEmpty } := by
  have hsection := Delivery.find?_foldl_applyIn ls d.sections n
  unfold option? section?
  rw [accept, hsection]
  cases hs : Roster.find? n d.sections with
  | none => rfl
  | some s =>
    exact Delivery.entry?_accept_of_plain _ (hplain s (Roster.mem_of_find?_eq_some hs)) o

/-- Where two lists of deliveries differ in one, to the same option, they lead to files that agree
but for it. -/
theorem agreeOff_accept (hplain : ∀ s ∈ d.sections, s.IsPlain) (c : Cursor) (n o : String)
    (v v' : Option String) (ls ms : List Delivery) :
    AgreeOff n o (d.accept c (ls ++ ⟨n, o, v⟩ :: ms)) (d.accept c (ls ++ ⟨n, o, v'⟩ :: ms)) where
  outline := by
    simp only [outline, accept, Delivery.outline_foldl_applyIn _ hplain]
  options m p hother := by
    rw [option?_accept hplain, option?_accept hplain, Delivery.valuesFor_filter_append_cons hother,
      Delivery.valuesFor_filter_append_cons hother]

end Document

/-! ## One line -/

namespace Routing

variable {r : Routing}

/-- Lines in two parts lead where the second part leads from the end of the first. -/
theorem advance_append (r : Routing) (c : Cursor) (ls ms : List (List Char)) :
    r.advance c (ls ++ ms) = r.advance (r.advance c ls) ms :=
  List.foldl_append

/-- Lines in two parts deliver what the first part does, and then what the second does there. -/
theorem deliveries_append (r : Routing) (c : Cursor) (ls ms : List (List Char)) :
    r.deliveries c (ls ++ ms) = r.deliveries c ls ++ r.deliveries (r.advance c ls) ms := by
  induction ls generalizing c with
  | nil => rfl
  | cons l ls ih =>
    simp only [List.cons_append, deliveries, ih, List.append_assoc]
    rfl

/-- Without a migration a line stays as it is. -/
theorem migrate_of_none (h : r.migration = none) (c : Cursor) (line : LineData) :
    r.migrate c line = line := by
  unfold migrate
  rw [h]
  exact ite_self line

/-- Without a migration, lines below the header of a section stand in that section. -/
theorem standing_of_none (h : r.migration = none) (c : Cursor) {name : String}
    (hname : name ∈ r.sections) : r.standing c name = .within name := by
  unfold standing migratedName
  rw [migrate_of_none h]
  have hsame : (if (r.lineData c name none none).sectionName = "" then name
      else (r.lineData c name none none).sectionName) = name := ite_self name
  dsimp only
  rw [hsame, if_pos hname]

/-- Without a migration, an option line in a section is a delivery to its option. -/
theorem step_option (h : r.migration = none) {c : Cursor} {sectionName name : String}
    (hc : c.standing = .within sectionName) (hname : name ≠ "") {line : List Char}
    {raw : Option String} (hline : Line.ofText line = .option name raw) :
    r.step c line = (c, some ⟨sectionName, name, Line.value raw⟩) := by
  unfold step delivery?
  rw [hline, hc]
  dsimp only
  rw [migrate_of_none h]
  exact congrArg (Prod.mk c) (if_neg hname)

/-- Option lines in a section do not lead out of it. -/
theorem advance_options {c : Cursor} {sectionName : String} (hc : c.standing = .within sectionName)
    {lines : List (List Char)}
    (h : ∀ line ∈ lines, ∃ name raw, Line.ofText line = .option name raw) :
    r.advance c lines = c := by
  induction lines with
  | nil => rfl
  | cons line lines ih =>
    obtain ⟨name, raw, hline⟩ := h line (List.mem_cons_self ..)
    have hstep : (r.step c line).1 = c := by
      unfold step
      rw [hline, hc]
    show r.advance (r.step c line).1 lines = c
    rw [hstep]
    exact ih fun l hl => h l (List.mem_cons_of_mem _ hl)

/-- Below the header of a section and further option lines, an option line is a delivery to its
option, and the lines after it go where they go anyway. -/
theorem exists_deliveries_eq (h : r.migration = none) (c : Cursor) {sectionName name : String}
    (hsection : sectionName ∈ r.sections) (hname : name ≠ "") {header : List Char}
    (hheader : Line.ofText header = .header sectionName) {options : List (List Char)}
    (hoptions : ∀ line ∈ options, ∃ name raw, Line.ofText line = .option name raw)
    (before after : List (List Char)) :
    ∃ c' ls ms, ∀ line raw, Line.ofText line = .option name raw →
      r.advance c (before ++ header :: (options ++ line :: after)) = c' ∧
        r.deliveries c (before ++ header :: (options ++ line :: after)) =
          ls ++ ⟨sectionName, name, Line.value raw⟩ :: ms := by
  -- The cursor in the section, which the option lines leave where it is.
  let inside : Cursor := { r.advance c before with standing := .within sectionName }
  have hopen : r.step (r.advance c before) header = (inside, none) := by
    unfold step
    rw [hheader]
    exact congrArg (fun standing => ({ r.advance c before with standing }, none))
      (standing_of_none h _ hsection)
  have hstay : r.advance inside options = inside := advance_options rfl hoptions
  refine ⟨r.advance inside after, r.deliveries c before ++ r.deliveries inside options,
    r.deliveries inside after, fun line raw hline => ?_⟩
  have hstep := step_option (c := inside) h rfl hname hline
  constructor
  · rw [advance_append]
    show r.advance (r.step (r.advance c before) header).1 (options ++ line :: after) = _
    rw [hopen, advance_append, hstay]
    show r.advance (r.step inside line).1 after = _
    rw [hstep]
  · rw [deliveries_append]
    show _ ++ ((r.step (r.advance c before) header).2.toList ++
      r.deliveries (r.step (r.advance c before) header).1 (options ++ line :: after)) = _
    rw [hopen, deliveries_append, hstay]
    show _ ++ ([] ++ (_ ++ ((r.step inside line).2.toList ++
      r.deliveries (r.step inside line).1 after))) = _
    rw [hstep]
    simp

end Routing

namespace Intake

/-- Lines that reject the file are the last that are read. -/
theorem takeLines_append_of_rejected (origin : String) (lines rest : List (List Char)) {t : Intake}
    (hgoes : t.rejected = none) (h : (takeLines origin lines t).result.rejected ≠ none) :
    (takeLines origin (lines ++ rest) t).result = (takeLines origin lines t).result := by
  induction lines generalizing t with
  | nil => exact absurd hgoes h
  | cons line lines ih =>
    simp only [List.cons_append, takeLines, Traced.result_bind] at h ⊢
    by_cases hstops : (t.takeLine origin line).result.rejected.isSome
    · rw [if_pos hstops, if_pos hstops]
    · rw [if_neg hstops] at h
      rw [if_neg hstops, if_neg hstops]
      exact ih (by simpa using hstops) h

/-- From a header on, no line rejects the file. -/
theorem rejected_of_header (origin : String) {header : List Char} {name : String}
    (hheader : Line.ofText header = .header name) (rest : List (List Char)) {t : Intake}
    (hgoes : t.rejected = none) : (takeLines origin (header :: rest) t).result.rejected = none := by
  have hopen : (t.takeLine origin header).result.rejected = none ∧
      (t.takeLine origin header).result.standing ≠ .outside := by
    unfold takeLine
    rw [hheader]
    obtain ⟨hrejected, hstanding⟩ := openSection_inside { t with linesRead := t.linesRead + 1 }
      origin (String.ofList (Line.content header)) name
    exact ⟨hrejected.trans hgoes, hstanding⟩
  simp only [takeLines, Traced.result_bind]
  rw [if_neg (by simp [hopen.1]), takeLines_inside origin rest hopen.2]
  exact hopen.1

/-- Where two lists of lines differ in the line of one option, below its section's header and
further option lines, they lead to files that agree but for that option. Where the lines before the
header reject the file, neither list gets there. -/
theorem agreeOff_takeLines (origin : String) {t : Intake} (hgoes : t.rejected = none)
    (hplain : ∀ s ∈ t.document.sections, s.IsPlain) (hmigration : t.document.migration = none)
    {sectionName name : String} (hsection : (t.document.section? sectionName).isSome)
    (hname : name ≠ "") {header : List Char}
    (hheader : Line.ofText header = .header sectionName) {options : List (List Char)}
    (hoptions : ∀ line ∈ options, ∃ name raw, Line.ofText line = .option name raw)
    (before after : List (List Char)) {line line' : List Char} {raw raw' : Option String}
    (hline : Line.ofText line = .option name raw) (hline' : Line.ofText line' = .option name raw') :
    Document.AgreeOff sectionName name
      (takeLines origin (before ++ header :: (options ++ line :: after)) t).result.document
      (takeLines origin (before ++ header :: (options ++ line' :: after)) t).result.document := by
  by_cases hbefore : (takeLines origin before t).result.rejected = none
  · -- Neither list is rejected, so both routes decide what the file takes in.
    have hnone (line : List Char) : (takeLines origin
        (before ++ header :: (options ++ line :: after)) t).result.rejected = none := by
      rw [takeLines_append origin before _ t hbefore]
      exact rejected_of_header origin hheader _ hbefore
    obtain ⟨c, ls, ms, hroutes⟩ := Routing.exists_deliveries_eq (r := t.document.routing) hmigration
      t.cursor (Roster.isSome_find?_iff.1 hsection) hname hheader hoptions before after
    obtain ⟨hcursor, hdeliveries⟩ := hroutes line raw hline
    obtain ⟨hcursor', hdeliveries'⟩ := hroutes line' raw' hline'
    rw [takeLines_spec origin _ t (hnone line), takeLines_spec origin _ t (hnone line'), hcursor,
      hcursor', hdeliveries, hdeliveries']
    exact Document.agreeOff_accept hplain c sectionName name _ _ ls ms
  · rw [takeLines_append_of_rejected origin before _ hgoes hbefore,
      takeLines_append_of_rejected origin before _ hgoes hbefore]
    exact ⟨rfl, fun _ _ _ => rfl⟩

end Intake

/-! ## One text -/

/-- The option whose lines come from a text that was set. -/
theorem Entry.set_text {e : Entry} (hcheck : e.check = none) {lo hi : Int}
    (hdomain : e.domain = .string lo hi) (text : String) :
    (e.mutate (.set (some text))).result.1 = { e with value := some (.string text) } := by
  have hset : e.mutate (.set (some text)) = e.store .value (some (.string text)) := by
    unfold mutate set
    rw [hcheck]
    simp only [storeInput, storeText, hdomain, Domain.accept?]
  rw [hset, store_entry]
  rfl

namespace Document

variable {f : Document} {s : Section} {a : Entry} {sectionName option : String}

/-- The sections of a file in which a text was set. -/
theorem sections_setText (hs : f.section? sectionName = some s) (ha : s.entry? option = some a)
    (hcheck : a.check = none) {lo hi : Int} (hdomain : a.domain = .string lo hi) (text : String) :
    f.setText sectionName option text = { f with
      sections := Roster.replace sectionName { s with
        entries := Roster.replace option { a with value := some (.string text) } s.entries }
        f.sections } := by
  have hchange : (s.onBody (·.mutate option (.set (some text)))).result.1 = { s with
      entries := Roster.replace option { a with value := some (.string text) } s.entries } := by
    rw [← Entry.set_text hcheck hdomain text]
    simp only [Section.onBody, Body.mutate, Body.change, ha, Traced.result_bind, Traced.result_pure]
  unfold setText onSection
  rw [hs]
  simp only [Traced.result_bind, Traced.result_pure, hchange]

/-- The lines of a file in which a text was set. It stands on its own line, below the header of its
section and the options before it, and the other lines are the same for all texts. -/
theorem exists_lines_setText (hf : f.WellFormed) (settings : Settings)
    (hs : f.section? sectionName = some s) (ha : s.entry? option = some a) (hcheck : a.check = none)
    {lo hi : Int} (hdomain : a.domain = .string lo hi) :
    ∃ (before after : List (List Char)) (es : List Entry),
      (∀ e ∈ es, e ∈ s.entries ∧ e.name < option) ∧ ∀ text,
        (f.setText sectionName option text).lines settings =
          before ++ Line.headerLine sectionName ::
            (es.map Entry.line ++
              Line.optionLine option (some ("\"" ++ text ++ "\"")) :: after) := by
  obtain ⟨ss, ts, hsections, -, hreplace, -⟩ := Roster.exists_eq_append_of_find?_eq_some hs
  obtain ⟨es, fs, hentries, -, hreplace', -⟩ := Roster.exists_eq_append_of_find?_eq_some ha
  have hsorted := (hf.sections s (Roster.mem_of_find?_eq_some hs)).sorted
  rw [hentries] at hsorted
  have haname : a.name = option := Roster.name_of_find?_eq_some ha
  have hsname : s.name = sectionName := Roster.name_of_find?_eq_some hs
  refine ⟨(settings.comment f.fileName).map ('#' :: ·) ++ (f.versionLines ++
      (ss.flatMap Section.lines ++ [[]])), fs.map Entry.line ++ ts.flatMap Section.lines, es, ?_,
      ?_⟩
  · intro e he
    have hlt := (List.pairwise_append.1 hsorted).2.2 e he a (List.mem_cons_self ..)
    exact ⟨by rw [hentries]; exact List.mem_append_left _ he, haname ▸ hlt⟩
  · -- Nothing that is written of the file depends on the text but its own line.
    intro text
    have hfileName : (f.setText sectionName option text).fileName = f.fileName := by
      rw [sections_setText hs ha hcheck hdomain]
      rfl
    have hversion : (f.setText sectionName option text).versionLines = f.versionLines := by
      rw [sections_setText hs ha hcheck hdomain]
      rfl
    have htext : (f.setText sectionName option text).sections = ss ++ { s with
        entries := es ++ { a with value := some (.string text) } :: fs } :: ts := by
      rw [sections_setText hs ha hcheck hdomain, hreplace', hreplace]
    have hline : Entry.line { a with value := some (.string text) } =
        Line.optionLine option (some ("\"" ++ text ++ "\"")) := by
      rw [← haname]
      rfl
    unfold lines
    rw [hfileName, hversion, htext, List.flatMap_append, List.flatMap_cons]
    simp only [Section.lines, hsname, List.map_append, List.map_cons, hline, List.append_assoc,
      List.cons_append, List.nil_append]

/-- Setting a text leaves the hooks of sections alone. -/
theorem hooks_setText (hooks : ∀ t ∈ f.sections, t.hooks = {})
    (hs : f.section? sectionName = some s) (ha : s.entry? option = some a) (hcheck : a.check = none)
    {lo hi : Int} (hdomain : a.domain = .string lo hi) (text : String) :
    ∀ t ∈ (f.setText sectionName option text).sections, t.hooks = {} := by
  rw [sections_setText hs ha hcheck hdomain]
  intro t ht
  rcases Roster.mem_of_mem_replace ht with rfl | ht
  · exact hooks s (Roster.mem_of_find?_eq_some hs)
  · exact hooks t ht

/-- The file after a text is the one that the lines lead to, whatever becomes of the disk. -/
theorem document_parse (d : Document) (disk : Disk) (origin : String) (bytes : List UInt8) :
    (d.parse disk origin bytes).result.1 = (d.takeIn origin bytes).result.document := by
  unfold parse
  simp only [Traced.result_bind]
  split <;> rfl

end Document

/-- Lines of which those in the middle have no line feed are read as such lines, between those that
the others break into. -/
theorem map_decode_linesOf_between (before after : List (List Char)) {middle : List (List Char)}
    (h : ∀ line ∈ middle, '\n' ∉ line) :
    (linesOf (Utf8.encode (Text.unlines (before ++ (middle ++ after))))).map Utf8.decode =
      (linesOf (Utf8.encode (Text.unlines before))).map Utf8.decode ++ (middle ++
        (linesOf (Utf8.encode (Text.unlines after))).map Utf8.decode) := by
  rw [linesOf_unlines_append, linesOf_unlines_append, List.map_append, List.map_append,
    map_decode_linesOf_unlines h]

/-- The lines of what is written of a file in which a text was set. Below the header of its section
and the options before it, the text stands on its own line, and the other lines are the same for all
texts without a line feed. -/
theorem Document.exists_lines_of_draft {f : Document} (hf : f.WellFormed)
    (hfits : ∀ s ∈ f.sections, s.FitsLines) {sectionName option : String} {s : Section}
    (hs : f.section? sectionName = some s) {a : Entry} (ha : s.entry? option = some a) {lo hi : Int}
    (hdomain : a.domain = .string lo hi)
    (hbefore : ∀ e ∈ s.entries, e.name < option → ∀ text, e.fileText = some text →
      '\n' ∉ text.toList) (settings : Settings) (defaults : Bool) :
    ∃ before header options after, Line.ofText header = .header sectionName ∧
      (∀ line ∈ options, ∃ name raw, Line.ofText line = .option name raw) ∧
      ∀ text, '\n' ∉ text.toList → ∃ written line raw,
        ((f.setText sectionName option text).draft settings defaults).result = .ok written ∧
          Line.ofText line = .option option raw ∧
          (linesOf (Utf8.encode written.toList)).map Utf8.decode =
            before ++ header :: (options ++ line :: after) := by
  have hmem := Roster.mem_of_find?_eq_some hs
  have hamem := Roster.mem_of_find?_eq_some ha
  have hline := hfits s hmem
  have hbody := hf.sections s hmem
  obtain rfl : s.name = sectionName := Roster.name_of_find?_eq_some hs
  obtain rfl : a.name = option := Roster.name_of_find?_eq_some ha
  have hcheck := hline.checks a hamem
  obtain ⟨before, after, es, hes, hlines⟩ :=
    exists_lines_setText hf settings hs ha hcheck hdomain
  refine ⟨(linesOf (Utf8.encode (Text.unlines before))).map Utf8.decode, Line.headerLine s.name,
    es.map Entry.line, (linesOf (Utf8.encode (Text.unlines after))).map Utf8.decode,
    Line.ofText_headerLine hline.oneLine hline.bracket hline.equals, ?_, fun text htext => ?_⟩
  · intro line hmem
    obtain ⟨e, he, rfl⟩ := List.mem_map.1 hmem
    have hemem := (hes e he).1
    exact ⟨e.name, _, Line.ofText_optionLine_content (hbody.entries e hemem).name_ne
      (hline.names e hemem) e.fileText⟩
  · obtain ⟨written, hdraft, hwritten⟩ := exists_draft_eq
      (hooks_setText (fun t ht => (hfits t ht).hooks) hs ha hcheck hdomain text) settings defaults
    refine ⟨written, Line.optionLine a.name (some ("\"" ++ text ++ "\"")), _, hdraft,
      Line.ofText_optionLine_content (hbody.entries a hamem).name_ne (hline.names a hamem) _, ?_⟩
    -- No line from the header to that of the option has a line feed.
    have hmiddle : ∀ line ∈ Line.headerLine s.name :: (es.map Entry.line ++
        [Line.optionLine a.name (some ("\"" ++ text ++ "\""))]), '\n' ∉ line := by
      refine List.forall_mem_cons.2 ⟨(Line.oneLine_headerLine hline.oneLine).2,
        List.forall_mem_append.2 ⟨?_, List.forall_mem_singleton.2 ?_⟩⟩
      · intro line hmem
        obtain ⟨e, he, rfl⟩ := List.mem_map.1 hmem
        obtain ⟨hemem, hlt⟩ := hes e he
        exact Line.not_mem_optionLine (by decide) (hline.names e hemem).oneLine.2
          (hbefore e hemem hlt)
      · refine Line.not_mem_optionLine (by decide) (hline.names a hamem).oneLine.2 ?_
        rintro _ ⟨⟩
        simpa using htext
    have hsplit := map_decode_linesOf_between before after hmiddle
    rw [hwritten, hlines]
    simpa using hsplit

/-- Whatever file a host can bring about, if it has no hooks and checks and its names fit into
lines, the text of a string option makes no difference to any other option of any file of the same
form and without a migration, as long as no line feed stands in it or in a text before it in its
section. -/
theorem Document.confines_of_not_mem_lineFeed {r : Registry} (hr : r.Reachable) {f : Document}
    (hf : f ∈ r.documents) (hfits : ∀ s ∈ f.sections, s.FitsLines) {sectionName option : String}
    {s : Section} (hs : f.section? sectionName = some s) {a : Entry}
    (ha : s.entry? option = some a) {lo hi : Int} (hdomain : a.domain = .string lo hi)
    (hbefore : ∀ e ∈ s.entries, e.name < option → ∀ text, e.fileText = some text →
      '\n' ∉ text.toList)
    {text text' : String} (htext : '\n' ∉ text.toList) (htext' : '\n' ∉ text'.toList) {g : Document}
    (hform : g.SameForm f) (hmigration : g.migration = none) (settings : Settings)
    (defaults : Bool) (disk : Disk) (origin : String) :
    f.Confines g settings defaults disk origin sectionName option text text' := by
  have hwell := hr.wellFormed.documents f hf
  have hmem := Roster.mem_of_find?_eq_some hs
  have hsname : s.name = sectionName := Roster.name_of_find?_eq_some hs
  have haname : a.name = option := Roster.name_of_find?_eq_some ha
  have hname : option ≠ "" :=
    haname ▸ ((hwell.sections s hmem).entries a (Roster.mem_of_find?_eq_some ha)).name_ne
  obtain ⟨t, ht, -⟩ := hform.section? hwell hmem
  have hthere : (g.section? sectionName).isSome := by
    rw [← hsname, ht]
    rfl
  obtain ⟨before, header, options, after, hheader, hoptions, hread⟩ :=
    exists_lines_of_draft hwell hfits hs ha hdomain hbefore settings defaults
  obtain ⟨written, line, raw, hdraft, hline, hlines⟩ := hread text htext
  obtain ⟨written', line', raw', hdraft', hline', hlines'⟩ := hread text' htext'
  refine ⟨written, written', hdraft, hdraft', ?_⟩
  rw [document_parse, document_parse, takeIn, takeIn, hlines, hlines']
  exact Intake.agreeOff_takeLines origin rfl (hform.isPlain fun t ht => (hfits t ht).hooks)
    hmigration hthere hname hheader hoptions before after hline hline'

/-- A run that makes a file with a switch and, after it, a note. -/
def noting : List Operation :=
  [.addFile "app",
    .addSection "app" { name := "look" },
    .edit "app" "look"
      (.define { name := "bold", kind := .boolean, value := some "on" } fun _ =>
        .define { name := "note", kind := .string, value := some "" } fun _ =>
        .finish (.ok ()))]

/-- The file that `noting` makes. -/
def noted : Document where
  name := "app"
  priority := 1000
  sections := [
    folder "look" [
      filed "look" "bold" .boolean [] (some (.boolean true)) (some (.boolean true)),
      filed "look" "note" (.string 0 0) [] (some (.string "")) (some (.string ""))]]

/-- Its section has no hooks and checks, and the names fit into lines. -/
theorem fitsLines_noted : ∀ s ∈ noted.sections, s.FitsLines := by
  refine List.forall_mem_singleton.2 ⟨rfl, ⟨by decide, by decide⟩, by decide, by decide, ?_, ?_⟩
  · refine List.forall_mem_cons.2 ⟨?_, List.forall_mem_singleton.2 ?_⟩
    · exact ⟨by decide, by decide, by decide, by decide, by decide⟩
    · exact ⟨by decide, by decide, by decide, by decide, by decide⟩
  · exact List.forall_mem_cons.2 ⟨rfl, List.forall_mem_singleton.2 rfl⟩

/-- A run makes the file. -/
theorem reachable_noted :
    Registry.Reachable { env := { dir := "/etc" }, documents := [noted] } :=
  ⟨{ dir := "/etc" }, noting, {}, rfl⟩

/-- A note with quotes, brackets and marks does no more to the switch than an empty one. -/
theorem confines_noted :
    noted.Confines noted {} false {} "app.conf" "look" "note" "" "\"] bold = off # [look" := by
  have hbefore : ∀ e ∈ (folder "look" [
      filed "look" "bold" .boolean [] (some (.boolean true)) (some (.boolean true)),
      filed "look" "note" (.string 0 0) [] (some (.string "")) (some (.string ""))]).entries,
      e.name < "note" → ∀ text, e.fileText = some text → '\n' ∉ text.toList := by
    refine List.forall_mem_cons.2 ⟨?_, List.forall_mem_singleton.2 ?_⟩
    · rintro - _ ⟨⟩
      decide
    · exact fun hlt => absurd hlt (String.lt_irrefl _)
  exact Document.confines_of_not_mem_lineFeed reachable_noted (List.mem_singleton_self noted)
    fitsLines_noted rfl rfl rfl hbefore (by decide) (by decide) ⟨rfl, rfl⟩ rfl {} false {}
    "app.conf"

/-- The value of the switch in that file after it has taken in its own lines with a given note. -/
def switchAfter (note : String) : Option (Option Value) :=
  let lines := (noted.setText "look" "note" note).lines {}
  ((noted.parse {} "app.conf" (Utf8.encode (Text.unlines lines))).result.1.option? "look"
    "bold").map
    fun e => e.value

/-- What stands behind a line feed in a note turns the switch off. -/
theorem Document.not_confines_noted :
    (∃ r : Registry, r.Reachable ∧ noted ∈ r.documents) ∧ (∀ s ∈ noted.sections, s.FitsLines) ∧
      ¬ noted.Confines noted {} false {} "app.conf" "look" "note" "" "x\nbold = off\n" := by
  refine ⟨⟨_, reachable_noted, List.mem_singleton_self noted⟩, fitsLines_noted, ?_⟩
  have hempty : switchAfter "" = some (some (.boolean true)) := by decide +kernel
  have hbroken : switchAfter "x\nbold = off\n" = some (some (.boolean false)) := by decide +kernel
  -- What is drafted is what `switchAfter` reads.
  have hlines (note : String) {written : String}
      (hdraft : ((noted.setText "look" "note" note).draft {} false).result = .ok written) :
      written.toList = Text.unlines ((noted.setText "look" "note" note).lines {}) := by
    have hooks : ∀ t ∈ (noted.setText "look" "note" note).sections, t.hooks = {} :=
      hooks_setText (fun t ht => (fitsLines_noted t ht).hooks) rfl rfl rfl rfl note
    obtain ⟨text, htext, hlines⟩ := exists_draft_eq hooks {} false
    obtain rfl := Except.ok.inj (htext.symm.trans hdraft)
    exact hlines
  rintro ⟨written, written', hdraft, hdraft', hagree⟩
  rw [hlines _ hdraft, hlines _ hdraft'] at hagree
  have hswitch : switchAfter "" = switchAfter "x\nbold = off\n" :=
    congrArg (Option.map fun e : Entry => e.value) (hagree.options "look" "bold" (by decide))
  rw [hempty, hbroken] at hswitch
  exact absurd hswitch (by decide)

end TypedConfig
