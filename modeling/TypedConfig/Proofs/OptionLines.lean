import TypedConfig.Proofs.LineEnds

/-!
# The options that a line can hold

An option is written as its name with its value behind it. `Line.Holds` says of which names and
values a line can be made that gives them back, and `Line.hands_optionText_iff` that these are all:
below the header of a known section, and without a migration, the first line of what is written for
a string option hands exactly its name and its value to the section if and only if the line can hold
them.

One direction is the round trip of a line. For the other, a name that is read has no mark in it, no
line break, and before a value no space at its end (`Line.IsRead`). What is left is a name that
starts with a space, and such a name is longer than what is read of its line.
-/

namespace TypedConfig

namespace Line

/-! ## What is read of an option -/

/-- A line that is read as an option is read as one by the reader of options. -/
theorem ofOptionText_of_ofContent {line : List Char} {name : String} {raw : Option String}
    (h : ofContent line = .option name raw) : ofOptionText line = .option name raw := by
  unfold ofContent at h
  split at h
  · cases h
  · cases h
  · split at h
    · exact h
    · split at h <;> cases h
  · exact h

/-- What is read of an option line: up to the first mark it is the name, but for the spaces at its
end, and behind the mark it is the value's text, but for the spaces at its start. A line without a
mark is a name. -/
inductive IsRead (line : List Char) : String → Option String → Prop
  | bare (hcut : Text.cut? mark (unescaped line) = none) :
      IsRead line (String.ofList (unescaped line)) none
  | marked {before after : List Char}
      (hcut : Text.cut? mark (unescaped line) = some (before, after)) :
      IsRead line (String.ofList (Text.dropSpacesRight before))
        (some (String.ofList (Text.dropSpaces after)))

/-- A line that is read as one of an option has the parts of one. -/
theorem isRead_of_ofText {text : List Char} {name : String} {raw : Option String}
    (h : ofText text = .option name raw) : IsRead (content text) name raw := by
  have hread := ofOptionText_of_ofContent h
  unfold ofOptionText at hread
  split at hread
  · next before after hcut =>
    obtain ⟨rfl, rfl⟩ := Line.option.inj hread
    exact .marked hcut
  · next hcut =>
    obtain ⟨rfl, rfl⟩ := Line.option.inj hread
    exact .bare hcut

namespace IsRead

variable {line : List Char} {name : String} {raw : Option String}

/-- The name is a part of the line. -/
theorem name_infix (h : IsRead line name raw) : name.toList <:+: line := by
  have hline := (unescaped_suffix line).isInfix
  cases h with
  | bare hcut => rwa [String.toList_ofList]
  | marked hcut =>
    rw [String.toList_ofList]
    have hname : _ <+: unescaped line := ⟨_, (List.append_assoc ..).symm.trans
      (Text.eq_append_of_cut? hcut).symm⟩
    exact ((Text.dropSpacesRight_prefix _).trans hname).isInfix.trans hline

/-- The text of the value is a part of the line. -/
theorem raw_infix {text : String} (h : IsRead line name (some text)) : text.toList <:+: line := by
  cases h with
  | marked hcut =>
    rw [String.toList_ofList]
    have hafter : _ <:+ unescaped line := ⟨_, (Text.eq_append_of_cut? hcut).symm⟩
    exact (((List.dropWhile_suffix _).trans hafter).trans (unescaped_suffix line)).isInfix

/-- There is no mark in the name. -/
theorem not_mark (h : IsRead line name raw) : ¬ mark <:+: name.toList := by
  cases h with
  | bare hcut =>
    rw [String.toList_ofList]
    exact Text.not_isInfix_of_cut?_eq_none hcut
  | marked hcut =>
    rw [String.toList_ofList]
    exact fun hmark => Text.not_isInfix_of_cut? (by decide) hcut
      (hmark.trans (Text.dropSpacesRight_prefix _).isInfix)

/-- There is no space at the end of a name with a value. -/
theorem getLast? {text : String} (h : IsRead line name (some text)) :
    name.toList.getLast? ≠ some ' ' := by
  cases h with
  | marked hcut =>
    rw [String.toList_ofList]
    exact Text.getLast?_dropSpacesRight _

/-- The name is not longer than what stands in the line before a mark. -/
theorem length_le {before after : List Char} (hne : before ≠ [])
    (h : IsRead (before ++ mark ++ after) name raw) : name.toList.length ≤ before.length := by
  have hplain : unescaped (before ++ mark ++ after) = unescaped before ++ mark ++ after := by
    rw [List.append_assoc, unescaped_append hne, List.append_assoc]
  obtain ⟨b, a, hfound, hle⟩ := Text.exists_cut?_append (unescaped before) mark after
  rw [← hplain] at hfound
  cases h with
  | bare hcut =>
    rw [hcut] at hfound
    cases hfound
  | @marked start _ hcut =>
    rw [hcut] at hfound
    obtain ⟨rfl, -⟩ := Prod.mk.inj (Option.some.inj hfound)
    rw [String.toList_ofList]
    have hname := (Text.dropSpacesRight_prefix start).length_le
    have hescape := (unescaped_suffix before).length_le
    omega

end IsRead

/-- No line break is looked at. -/
theorem oneLine_content (text : List Char) : Text.OneLine (content text) := by
  have hkept (c : Char) (hc : c ∈ content text) : (c != '\r' && c != '\n') = true :=
    List.mem_takeWhile_imp (p := fun c => c != '\r' && c != '\n') hc
  constructor
  · exact fun h => absurd (hkept _ h) (by decide)
  · exact fun h => absurd (hkept _ h) (by decide)

/-- A part of one line is in one line. -/
theorem oneLine_of_infix {cs line : List Char} (h : cs <:+: line) (hline : Text.OneLine line) :
    Text.OneLine cs :=
  ⟨fun hc => hline.1 (h.subset hc), fun hc => hline.2 (h.subset hc)⟩

/-- The value of an option line is a part of the text that it is taken from. -/
theorem infix_of_decodeValue {raw text : String} (h : decodeValue raw = some text) :
    text.toList <:+: raw.toList := by
  have hunquote (cs : List Char) : unquote cs <:+: cs := by
    unfold unquote
    split
    · exact List.infix_rfl
    · next q rest =>
      split
      · exact (List.dropLast_prefix rest).isInfix.trans (List.suffix_cons q rest).isInfix
      · exact List.infix_rfl
  unfold decodeValue at h
  split at h
  · cases h
  · obtain rfl := Option.some.inj h
    rw [String.toList_ofList]
    exact (hunquote _).trans (Text.dropSpacesRight_prefix _).isInfix

/-! ## What a section is handed -/

/-- A line hands a name and a value to a section: below the header of any section that is known, and
unless a migration comes in between, it does to the file what this name and this value do to the
section, and what happens then is a part of what happens for the line. -/
def Hands (text : List Char) (name : String) (value : Option String) : Prop :=
  ∀ (t : Intake) (origin sectionName : String), t.standing = .within sectionName →
    (t.document.section? sectionName).isSome →
    (t.document.migration = none ∨ t.document.version ≤ t.document.versionRead) →
    (t.takeLine origin text).result.document =
        (t.document.onSection sectionName fun s => s.applyLine name value).result.1 ∧
      (t.document.onSection sectionName fun s => s.applyLine name value).events <:+:
        (t.takeLine origin text).events

/-- An option line that is not migrated is applied to its section. -/
theorem takeOption_of_name {t : Intake}
    (h : t.document.migration = none ∨ t.document.version ≤ t.document.versionRead) {name : String}
    (hname : name ≠ "") (origin line sectionName : String) (value : Option String) :
    (t.takeOption origin line sectionName name value).result.document =
        (t.document.onSection sectionName fun s => s.applyLine name value).result.1 ∧
      (t.document.onSection sectionName fun s => s.applyLine name value).events <:+:
        (t.takeOption origin line sectionName name value).events := by
  obtain ⟨announced, hmigrate⟩ :=
    Intake.migrate_result t origin (t.lineData sectionName (some name) value)
  have hsame : t.document.routing.migrate t.cursor (t.lineData sectionName (some name) value) =
      t.lineData sectionName (some name) value := by
    rcases h with hnone | hcurrent
    · exact Routing.migrate_of_none (r := t.document.routing) hnone _ _
    · exact if_pos hcurrent
  have hkept : ¬ (t.lineData sectionName (some name) value).option.getD "" = "" := hname
  rw [hsame] at hmigrate
  unfold Intake.takeOption
  simp only [Traced.result_bind, Traced.events_bind, hmigrate, if_neg hkept]
  refine ⟨?_, ?_⟩
  · split <;> rfl
  · exact (List.prefix_append ..).isInfix.trans (List.suffix_append ..).isInfix

/-- A section that takes its lines by a hook, which does nothing. -/
def listener : Intake where
  document :=
    { name := "app", priority := 1000,
      sections := [stock "look" { read := some fun _ _ => .finish (.ok .changed) } []] }
  standing := .within "look"

/-- Of a line the hook is told as what it is read. -/
theorem mem_events_takeLine_listener {text : List Char} {name : String} {value : Option String}
    (h : Event.lineRead "look" name value ∈ (listener.takeLine "" text).events) :
    name ≠ "" ∧ ∃ raw, ofText text = .option name raw ∧ Line.value raw = value := by
  unfold Intake.takeLine at h
  cases hline : ofText text with
  | skipped => simp [hline] at h
  | unclosedHeader =>
    rw [hline] at h
    exact absurd (List.mem_singleton.1 h) Event.noConfusion
  | header header =>
    rw [hline] at h
    dsimp only [Intake.openSection] at h
    rw [Intake.migrate_of_current (Nat.le_refl 1), Traced.pure_bind] at h
    dsimp only at h
    split at h
    · simp at h
    · exact absurd (List.mem_singleton.1 h) Event.noConfusion
  | option name' raw =>
    rw [hline] at h
    change _ ∈ (Intake.takeOption { listener with linesRead := 1 } "" _ "look" name'
      (Line.value raw)).events at h
    unfold Intake.takeOption at h
    rw [Intake.migrate_of_current (Nat.le_refl 1), Traced.pure_bind] at h
    by_cases hname : name' = ""
    · simp [Intake.lineData, hname] at h
    · dsimp only [Intake.lineData, Option.getD_some] at h
      rw [if_neg hname] at h
      obtain ⟨-, rfl, rfl⟩ := Event.lineRead.inj (List.mem_singleton.1 h)
      exact ⟨hname, raw, rfl, rfl⟩

/-- A line hands over what it is read as, unless that is an empty name. -/
theorem hands_iff {text : List Char} {name : String} {value : Option String} :
    Hands text name value ↔
      name ≠ "" ∧ ∃ raw, ofText text = .option name raw ∧ Line.value raw = value := by
  constructor
  · intro h
    obtain ⟨-, hcalled⟩ := h listener "" "look" rfl rfl (.inl rfl)
    change [Event.lineRead "look" name value] <:+: (listener.takeLine "" text).events at hcalled
    exact mem_events_takeLine_listener (hcalled.subset (List.mem_singleton_self _))
  · rintro ⟨hname, raw, hline, rfl⟩ t origin sectionName hin - hunmigrated
    unfold Intake.takeLine
    rw [hline]
    dsimp only
    rw [hin]
    exact takeOption_of_name
      (t := { t with standing := .within sectionName, linesRead := t.linesRead + 1 })
      hunmigrated hname origin _ sectionName (Line.value raw)

/-! ## The options that a line can hold -/

/-- A string option that is read back from its line. Nothing is asked of the characters that mean
something elsewhere in a file, whether in the name or in the text. -/
structure Holds (name : String) (value : Option String) : Prop where
  ne_empty : name ≠ ""
  /-- Spaces at the start of a line are dropped. -/
  head : name.toList.head? ≠ some ' '
  /-- The line is cut at its first mark. -/
  mark : ¬ mark <:+: name.toList
  oneLine : Text.OneLine name.toList
  /-- Spaces before the mark are dropped; a bare name keeps those at its end. -/
  last : ∀ text, value = some text → name.toList.getLast? ≠ some ' '
  text : ∀ text, value = some text → Text.OneLine text.toList

/-- The text that stands in a file for a string or for null. -/
def stringText (lo hi : Int) (value : Option String) : Option String :=
  value.map fun text => (Domain.string lo hi).formatForFile (.string text)

/-- A name and a value that are read from their line are ones that it can hold. -/
theorem holds_of_ofText {name : String} (hne : name ≠ "") {value raw : Option String} {lo hi : Int}
    (hread : ofText (optionLine name (stringText lo hi value)) = .option name raw)
    (hvalue : Line.value raw = value) : Holds name value := by
  have hline := isRead_of_ofText hread
  have hname := oneLine_of_infix hline.name_infix (oneLine_content _)
  have hmarked (text : String) (htext : value = some text) :
      name.toList.getLast? ≠ some ' ' ∧ Text.OneLine text.toList := by
    obtain ⟨raw, rfl, hdecode⟩ := Option.bind_eq_some_iff.1 (hvalue.trans htext)
    exact ⟨hline.getLast?, oneLine_of_infix ((infix_of_decodeValue hdecode).trans hline.raw_infix)
      (oneLine_content _)⟩
  refine ⟨hne, fun hhead => ?_, hline.not_mark, hname, fun text h => (hmarked text h).1,
    fun text h => (hmarked text h).2⟩
  -- A name with a space in front would be longer than what is left of it in the line.
  have hshorter := Text.length_dropSpaces_lt hhead
  have hescape : (escape name).toList = [] := by
    unfold escape
    split <;> simp_all
  cases value with
  | none =>
    have hbare : optionLine name (stringText lo hi none) = name.toList := by
      simp [optionLine, stringText, hescape]
    rw [hbare, content_eq_dropSpaces hname] at hline
    have hle := hline.name_infix.length_le
    omega
  | some text =>
    obtain ⟨hlast, htext⟩ := hmarked text rfl
    have hstart : Text.dropSpaces name.toList ≠ [] :=
      Text.dropSpaces_ne_nil (fun h => hne (String.toList_eq_nil_iff.1 h)) hlast
    have hmark : optionLine name (stringText lo hi (some text)) =
        name.toList ++ (mark ++ ' ' :: '"' :: (text.toList ++ ['"'])) := by
      simp [optionLine, stringText, Domain.formatForFile, hescape, mark]
    have hone : Text.OneLine (name.toList ++ (mark ++ ' ' :: '"' :: (text.toList ++ ['"']))) := by
      simpa [Text.OneLine, mark] using And.intro ⟨hname.1, htext.1⟩ ⟨hname.2, htext.2⟩
    rw [hmark, content_eq_dropSpaces hone, Text.dropSpaces_append hstart, ← List.append_assoc]
      at hline
    have hle := hline.length_le hstart
    omega

/-- A line that holds a name and a value is read as one with these. -/
theorem ofText_of_holds {name : String} {value : Option String} (h : Holds name value)
    (lo hi : Int) :
    ∃ raw, ofText (optionLine name (stringText lo hi value)) = .option name raw ∧
      Line.value raw = value := by
  cases value with
  | none => exact ⟨none, ofText_bareLine h.ne_empty h.head h.mark h.oneLine, rfl⟩
  | some text =>
    refine ⟨stringText lo hi (some text), ?_, decodeValue_quoted text⟩
    refine ofText_optionLine h.ne_empty ⟨h.head, h.last text rfl, h.mark, h.oneLine⟩ ?_ ?_
    · rintro _ ⟨⟩
      have htext := h.text text rfl
      simpa [Domain.formatForFile, Text.OneLine] using htext
    · rintro _ ⟨⟩
      simp [Domain.formatForFile]

/-- A text and a line feed begin with a line, and no more of the text than this is looked at. -/
theorem exists_firstLine (cs : List Char) :
    ∃ first rest, cs ++ ['\n'] = first ++ '\n' :: rest ∧ '\n' ∉ first ∧
      content first = content cs := by
  by_cases hfeed : '\n' ∈ cs
  · obtain ⟨first, rest, rfl, hfirst⟩ := List.eq_append_cons_of_mem hfeed
    exact ⟨first, rest ++ ['\n'], List.append_assoc .., hfirst,
      (content_append_break (.inr rfl) first rest).symm⟩
  · exact ⟨cs, [], rfl, hfeed, rfl⟩

/-- The first line of what is written for a string option hands the option's name and its value to a
section if the line can hold them, and only then. -/
theorem hands_optionText_iff (name : String) (value : Option String) (lo hi : Int) :
    ∃ first rest, linesOf (Utf8.encode (optionText name (stringText lo hi value)).toList) =
        first :: rest ∧
      (Hands (Utf8.decode first) name value ↔ Holds name value) := by
  obtain ⟨first, rest, hcut, hfirst, hcontent⟩ :=
    exists_firstLine (optionLine name (stringText lo hi value))
  have hfeed : String.utf8EncodeChar '\n' = [10] := by decide
  have hbytes : Utf8.encode (first ++ '\n' :: rest) =
      Utf8.encode first ++ 10 :: Utf8.encode rest := by
    simp only [Utf8.encode, List.flatMap_append, List.flatMap_cons, hfeed, List.singleton_append]
  have hsame : ofText first = ofText (optionLine name (stringText lo hi value)) := by
    unfold ofText
    rw [hcontent]
  refine ⟨Utf8.encode first, linesOf (Utf8.encode rest), ?_, ?_⟩
  · rw [toList_optionText, hcut, hbytes, linesOf_append (Utf8.not_mem_encode hfirst)]
  · rw [Utf8.decode_encode, hands_iff, hsame]
    constructor
    · rintro ⟨hne, raw, hread, hvalue⟩
      exact holds_of_ofText hne hread hvalue
    · exact fun h => ⟨h.ne_empty, ofText_of_holds h lo hi⟩

/-- Nothing in this name and this value means what it means elsewhere in a file. -/
example :
    ofText (optionLine "[x]=\\ \"#" (stringText 0 0 (some "null = '\\ "))) =
        .option "[x]=\\ \"#" (some "\"null = '\\ \"") ∧
      Line.value (some "\"null = '\\ \"") = some "null = '\\ " := by
  decide +kernel

end Line

end TypedConfig
