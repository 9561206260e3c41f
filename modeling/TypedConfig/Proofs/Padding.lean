import TypedConfig.Proofs.Convergence
import TypedConfig.Proofs.Migrations

/-!
# Spaces at the end of a line

The value of an option line ends where the spaces behind it begin, so a line of an option means the
same whatever spaces are at its end (`Line.decodeValue_padded`). A file that takes in a text with
such a line, and the text with other spaces there, comes out the same
(`Document.readsAlike_of_padded`). The two readings are run side by side, as states that are alike.

Two values do not bear it: `null` stands for null by itself only, and with spaces behind it for a
text, and the version of a text is none with spaces behind it (`Line.version?_padded_of_pos`).
-/

namespace TypedConfig

namespace Line

/-! ## One line of a text -/

/-- A text with spaces put at its end. -/
def padded (raw : String) (n : Nat) : String :=
  String.ofList (raw.toList ++ List.replicate n ' ')

/-- Spaces at the end of a line are at the end of its content, unless a carriage return or a line
feed comes before them. -/
theorem exists_content_append (text tail : List Char) (n : Nat)
    (htail : tail = [] ∨ tail.head? = some '\r') (hne : content (text ++ tail) ≠ []) :
    ∃ m, content (text ++ (List.replicate n ' ' ++ tail)) =
      content (text ++ tail) ++ List.replicate m ' ' := by
  -- What follows the spaces is not read, since the content ends where the tail starts.
  have hcut : tail.takeWhile (fun c => c != '\r' && c != '\n') = [] ∧
      Text.dropSpaces tail = tail := by
    cases tail with
    | nil => exact ⟨rfl, rfl⟩
    | cons c tail =>
      obtain rfl : c = '\r' := by simpa using htail
      exact ⟨rfl, rfl⟩
  obtain ⟨hend, hblank⟩ := hcut
  have hstart : Text.dropSpaces text ≠ [] := by
    intro hnil
    refine hne ?_
    unfold content Text.dropSpaces at *
    rw [List.dropWhile_append, hnil, List.isEmpty_nil, if_pos rfl, hblank, hend]
  have hspaces : (List.replicate n ' ' ++ tail).takeWhile (fun c => c != '\r' && c != '\n') =
      List.replicate n ' ' := by
    rw [List.takeWhile_append_of_pos, hend, List.append_nil]
    intro c hc
    rw [List.eq_of_mem_replicate hc]
    rfl
  have htake (more : List Char) := @List.takeWhile_append _ (fun c => c != '\r' && c != '\n')
    (Text.dropSpaces text) more
  unfold content
  simp only [Text.dropSpaces_append hstart, htake, hspaces, hend]
  split
  · exact ⟨n, by rw [List.append_nil]⟩
  · exact ⟨0, by simp⟩

/-- Spaces at the end of an option's text are at the end of its value. -/
theorem exists_ofOptionText_append {line : List Char} {name raw : String}
    (h : ofOptionText line = .option name (some raw)) (n : Nat) :
    ∃ m, ofOptionText (line ++ List.replicate n ' ') = .option name (some (padded raw m)) := by
  have hne : line ≠ [] := by
    rintro rfl
    cases h
  -- The escape is at the start and out of the spaces' way.
  unfold ofOptionText at h ⊢
  rw [unescaped_append hne]
  cases hcut : Text.cut? mark (unescaped line) with
  | none =>
    rw [hcut] at h
    cases h
  | some parts =>
    obtain ⟨before, after⟩ := parts
    rw [hcut] at h
    obtain ⟨rfl, hraw⟩ := Line.option.inj h
    obtain rfl := Option.some.inj hraw
    obtain ⟨m, hm⟩ := Text.exists_dropSpaces_append_replicate after n
    refine ⟨m, ?_⟩
    rw [Text.cut?_append hcut, padded, String.toList_ofList, ← hm]

/-- Spaces at the end of an option line's content are at the end of its value. -/
theorem exists_ofContent_append {line : List Char} {name raw : String}
    (h : ofContent line = .option name (some raw)) (n : Nat) :
    ∃ m, ofContent (line ++ List.replicate n ' ') = .option name (some (padded raw m)) := by
  have hsame : ofContent line = ofOptionText line ∧
      ofContent (line ++ List.replicate n ' ') = ofOptionText (line ++ List.replicate n ' ') := by
    unfold ofContent at h
    split at h
    · cases h
    · cases h
    · next rest =>
      split at h
      · next hequals =>
        have hmore : (rest ++ List.replicate n ' ').contains '=' = true := by
          simp only [List.contains_eq_mem, List.mem_append, decide_eq_true_eq] at hequals ⊢
          exact .inl hequals
        exact ⟨if_pos hequals, if_pos hmore⟩
      · split at h <;> cases h
    · next hnil hhash hbracket =>
      cases line with
      | nil => exact absurd rfl hnil
      | cons c rest =>
        have hplain (more : List Char) : ofContent (c :: more) = ofOptionText (c :: more) := by
          unfold ofContent
          split
          · next h => cases h
          · next h => exact absurd (congrArg (· :: rest) (List.cons.inj h).1) (hhash rest)
          · next h => exact absurd (congrArg (· :: rest) (List.cons.inj h).1) (hbracket rest)
          · rfl
        exact ⟨hplain rest, hplain _⟩
  rw [hsame.1] at h
  rw [hsame.2]
  exact exists_ofOptionText_append h n

/-- Spaces at the end of an option line, before a carriage return or after it, are at the end of its
value or nowhere. -/
theorem exists_ofText_append {text tail : List Char} {name raw : String} (n : Nat)
    (htail : tail = [] ∨ tail.head? = some '\r')
    (h : ofText (text ++ tail) = .option name (some raw)) :
    ∃ m, ofText (text ++ (List.replicate n ' ' ++ tail)) = .option name (some (padded raw m)) := by
  have hne : content (text ++ tail) ≠ [] := by
    intro hnil
    unfold ofText at h
    rw [hnil] at h
    cases h
  obtain ⟨m, hm⟩ := exists_content_append text tail n htail hne
  unfold ofText
  rw [hm]
  exact exists_ofContent_append h m

/-- Without spaces nothing is put there. -/
theorem padded_zero (raw : String) : padded raw 0 = raw := by
  simp [padded]

/-- A value is taken to end before the spaces at its end. -/
theorem decodeValue_padded {raw : String} (h : raw ≠ nullText) (n : Nat) :
    decodeValue (padded raw n) = decodeValue raw := by
  have hpadded : padded raw n ≠ nullText := by
    cases n with
    | zero => rwa [padded_zero]
    | succ n =>
      intro hnull
      have hlast := congrArg (fun s => s.toList.getLast?) hnull
      simp [padded, nullText, List.replicate_succ'] at hlast
  unfold decodeValue
  rw [if_neg h, if_neg hpadded, padded, String.toList_ofList,
    Text.dropSpacesRight_append_replicate]

/-- Nothing with spaces behind it names a version. -/
theorem version?_padded_of_pos (raw : String) {n : Nat} (h : 0 < n) :
    version? (some (padded raw n)) = none := by
  have hnumeral : Numeral.natural? 10 Numeral.word32Greatest
      (Text.dropBlanks (padded raw n).toList) = none := by
    rw [padded, String.toList_ofList, Text.dropBlanks, List.dropWhile_append]
    split
    · -- Spaces alone are blanks, and there is nothing left of them.
      rw [List.dropWhile_replicate, if_pos (by decide)]
      rfl
    · refine Numeral.natural?_eq_none_of_space (List.mem_append_right _ ?_)
      exact List.mem_replicate.2 ⟨Nat.ne_of_gt h, rfl⟩
  simp only [version?, Option.bind_eq_bind, Option.bind_some, hnumeral, Option.filter_none]

/-- What names no version does not name one with spaces behind it. -/
theorem version?_padded {raw : String} (h : version? (some raw) = none) (n : Nat) :
    version? (some (padded raw n)) = none := by
  rcases Nat.eq_zero_or_pos n with rfl | hn
  · rwa [padded_zero]
  · exact version?_padded_of_pos raw hn

/-- Lines that a file takes in alike, where the next line stands at a place: they are the same but
for the texts of an option's values, which have to mean the same. -/
inductive Alike (standing : Standing) : Line → Line → Prop
  | skipped : Alike standing .skipped .skipped
  | unclosedHeader : Alike standing .unclosedHeader .unclosedHeader
  | header (name : String) : Alike standing (.header name) (.header name)
  | option {name : String} {raw raw' : Option String} (hvalue : value raw = value raw')
      (hversion : standing = .outside → name = versionName → version? raw = version? raw') :
      Alike standing (.option name raw) (.option name raw')

/-- A line is taken in like itself. -/
theorem Alike.refl (standing : Standing) (line : Line) : Alike standing line line := by
  cases line with
  | skipped => exact .skipped
  | unclosedHeader => exact .unclosedHeader
  | header name => exact .header name
  | option name raw => exact .option rfl fun _ _ => rfl

end Line

/-- Where a warning is given, and why. -/
def Warning.cause (w : Warning) : Nat × WarningKind :=
  (w.line, w.kind)

namespace Intake

/-- States that differ in the texts of what was dropped only, and in the text of the reason for a
rejection. -/
structure Alike (t u : Intake) : Prop where
  document : t.document = u.document
  standing : t.standing = u.standing
  linesRead : t.linesRead = u.linesRead
  warnings : t.warnings.map Warning.cause = u.warnings.map Warning.cause
  rejected : t.rejected.isSome = u.rejected.isSome

namespace Alike

variable {t u : Intake}

/-- The same file may be put into both states. -/
theorem withDocument (h : t.Alike u) (document : Document) :
    Alike { t with document } { u with document } :=
  ⟨rfl, h.standing, h.linesRead, h.warnings, h.rejected⟩

/-- A line may be dropped in both states, for any reasons. -/
theorem warn (h : t.Alike u) (origin : String) (kind : WarningKind)
    (line line' reason reason' : String) :
    (t.warn origin kind line reason).result.Alike (u.warn origin kind line' reason').result where
  document := h.document
  standing := h.standing
  linesRead := h.linesRead
  warnings := by
    show (t.warnings ++ [_]).map Warning.cause = (u.warnings ++ [_]).map Warning.cause
    rw [List.map_append, List.map_append, h.warnings, h.linesRead]
    rfl
  rejected := h.rejected

/-- A line is migrated to the same one in both states. -/
theorem migrate (h : t.Alike u) (origin : String) (line : LineData) :
    (t.migrate origin line).result.1.Alike (u.migrate origin line).result.1 ∧
      (t.migrate origin line).result.2 = (u.migrate origin line).result.2 := by
  obtain ⟨announced, hleft⟩ := migrate_result t origin line
  obtain ⟨announced', hright⟩ := migrate_result u origin line
  rw [hleft, hright]
  refine ⟨⟨h.document, h.standing, h.linesRead, h.warnings, h.rejected⟩, ?_⟩
  unfold cursor
  rw [h.document, h.standing]

/-- A header leads to the same section in both states. -/
theorem openSection (h : t.Alike u) (origin line line' name : String) :
    (t.openSection origin line name).result.Alike (u.openSection origin line' name).result := by
  have hdata : t.lineData name none none = u.lineData name none none := by
    unfold lineData
    rw [h.document]
  obtain ⟨hmigrated, hsame⟩ := h.migrate origin (u.lineData name none none)
  unfold Intake.openSection
  simp only [Traced.result_bind, hdata, hsame, hmigrated.document]
  split
  · exact ⟨rfl, rfl, hmigrated.linesRead, hmigrated.warnings, hmigrated.rejected⟩
  · refine warn ?_ origin .unknownSection line line' _ _
    exact ⟨rfl, rfl, hmigrated.linesRead, hmigrated.warnings, hmigrated.rejected⟩

/-- Version lines with one meaning do the same in both states. -/
theorem takeVersion (h : t.Alike u) (origin line line' : String) {raw raw' : Option String}
    (hversion : Line.version? raw = Line.version? raw') :
    (t.takeVersion origin line raw).result.Alike (u.takeVersion origin line' raw').result := by
  unfold Intake.takeVersion
  rw [hversion]
  cases Line.version? raw' with
  | none => exact ⟨h.document, h.standing, h.linesRead, h.warnings, rfl⟩
  | some version =>
    dsimp only
    rw [h.document]
    split
    · exact ⟨rfl, h.standing, h.linesRead, h.warnings, h.rejected⟩
    · exact ⟨rfl, h.standing, h.linesRead, h.warnings, rfl⟩

/-- Option lines with the same value do the same in both states. -/
theorem takeOption (h : t.Alike u) (origin line line' sectionName name : String)
    (value : Option String) :
    (t.takeOption origin line sectionName name value).result.Alike
      (u.takeOption origin line' sectionName name value).result := by
  have hdata : t.lineData sectionName (some name) value =
      u.lineData sectionName (some name) value := by
    unfold lineData
    rw [h.document]
  obtain ⟨hmigrated, hsame⟩ := h.migrate origin (u.lineData sectionName (some name) value)
  unfold Intake.takeOption
  simp only [Traced.result_bind, hdata, hsame, hmigrated.document]
  split
  · exact hmigrated
  · simp only [Traced.result_bind]
    have htaken := hmigrated.withDocument
    split
    · exact (htaken _).warn origin .unknownOption line line' _ _
    · simp only [Traced.result_bind]
      exact (htaken _).warn origin .invalidValue line line' _ _
    · exact htaken _

/-- Lines that are taken in alike lead from states that are alike to such states. -/
theorem takeLine (h : t.Alike u) (origin : String) {text text' : List Char}
    (hline : Line.Alike t.standing (Line.ofText text) (Line.ofText text')) :
    (t.takeLine origin text).result.Alike (u.takeLine origin text').result := by
  -- Both lines are counted first, which leaves the states alike.
  have hcounted : Alike { t with linesRead := t.linesRead + 1 }
      { u with linesRead := u.linesRead + 1 } :=
    ⟨h.document, h.standing, congrArg (· + 1) h.linesRead, h.warnings, h.rejected⟩
  have hplace : t.standing = { t with linesRead := t.linesRead + 1 : Intake }.standing := rfl
  rw [hplace] at hline
  unfold Intake.takeLine
  generalize { t with linesRead := t.linesRead + 1 : Intake } = v at hcounted hline ⊢
  generalize { u with linesRead := u.linesRead + 1 : Intake } = w at hcounted ⊢
  generalize Line.ofText text = l at hline ⊢
  generalize Line.ofText text' = l' at hline ⊢
  dsimp only
  cases hline with
  | skipped => exact hcounted
  | unclosedHeader => exact hcounted.warn origin .missingBracket _ _ _ _
  | header name => exact hcounted.openSection origin _ _ name
  | @option name raw raw' hvalue hversion =>
    dsimp only
    rw [← hcounted.standing]
    cases hstanding : v.standing with
    | outside =>
      dsimp only
      by_cases hname : name = Line.versionName
      · rw [if_pos hname, if_pos hname]
        exact hcounted.takeVersion origin _ _ (hversion hstanding hname)
      · rw [if_neg hname, if_neg hname]
        exact hcounted.warn origin .optionOutsideSection _ _ _ _
    | astray => exact hcounted
    | within sectionName =>
      dsimp only
      rw [hvalue]
      exact hcounted.takeOption origin _ _ sectionName name _

/-- The same lines lead from states that are alike to such states. -/
theorem takeLines (h : t.Alike u) (origin : String) (lines : List (List Char)) :
    (takeLines origin lines t).result.Alike (takeLines origin lines u).result := by
  induction lines generalizing t u with
  | nil => exact h
  | cons line lines ih =>
    have htaken := h.takeLine origin (Line.Alike.refl t.standing (Line.ofText line))
    simp only [Intake.takeLines, Traced.result_bind, htaken.rejected]
    split
    · exact htaken
    · exact ih htaken

end Alike

/-- A header is not left any more. -/
theorem standing_takeLine (t : Intake) (origin : String) {text : List Char}
    (h : t.standing ≠ .outside ∨ (Line.ofText text).isHeader = true) :
    (t.takeLine origin text).result.standing ≠ .outside := by
  rcases h with h | h
  · exact (takeLine_inside h origin text).2
  · unfold takeLine
    cases hline : Line.ofText text with
    | header name => exact (openSection_inside ..).2
    | _ =>
      rw [hline] at h
      cases h

/-- A line may be exchanged for one that is taken in like it. Whether the header of a section came
before it is known from where the lines start and from the lines before. -/
theorem Alike.takeLines_append {t u : Intake} (h : t.Alike u) (origin : String)
    (before after : List (List Char)) {line line' : List Char}
    (hline : ∀ standing,
      ((t.standing ≠ .outside ∨ ∃ l ∈ before, (Line.ofText l).isHeader = true) →
        standing ≠ .outside) →
      Line.Alike standing (Line.ofText line) (Line.ofText line')) :
    (Intake.takeLines origin (before ++ line :: after) t).result.Alike
      (Intake.takeLines origin (before ++ line' :: after) u).result := by
  -- The induction is on the lines before, and the condition on the line moves along with the state.
  induction before generalizing t u with
  | nil =>
    have hhere : t.standing ≠ .outside ∨ (∃ l ∈ [], (Line.ofText l).isHeader = true) →
        t.standing ≠ .outside := by
      rintro (hinside | ⟨l, hl, -⟩)
      · exact hinside
      · cases hl
    have htaken := h.takeLine origin (hline t.standing hhere)
    simp only [List.nil_append, Intake.takeLines, Traced.result_bind, htaken.rejected]
    split
    · exact htaken
    · exact htaken.takeLines origin after
  | cons l before ih =>
    have htaken := h.takeLine origin (Line.Alike.refl t.standing (Line.ofText l))
    simp only [List.cons_append, Intake.takeLines, Traced.result_bind, htaken.rejected]
    split
    · exact htaken
    · refine ih htaken fun standing hstanding => hline standing ?_
      rintro (hinside | ⟨m, hm, hheader⟩)
      · exact hstanding (.inl (t.standing_takeLine origin (.inl hinside)))
      · rcases List.mem_cons.1 hm with rfl | hm
        · exact hstanding (.inl (t.standing_takeLine origin (.inr hheader)))
        · exact hstanding (.inr ⟨m, hm, hheader⟩)

end Intake

/-- Two readings of texts that come out the same, but for the texts of what was dropped and of the
reason for a rejection. -/
structure ReadsAlike (x y : OnDisk Document Report) : Prop where
  /-- All options have the same values, and the version that was read is the same. -/
  document : x.1 = y.1
  disk : x.2.1 = y.2.1
  warnings : x.2.2.warnings.map Warning.cause = y.2.2.warnings.map Warning.cause
  rejected : x.2.2.rejected.isSome = y.2.2.rejected.isSome

/-- States that are alike end readings that are. -/
theorem Intake.Alike.readsAlike_parse {d : Document} {origin : String} {bytes bytes' : List UInt8}
    (h : (d.takeIn origin bytes).result.Alike (d.takeIn origin bytes').result) (disk : Disk) :
    ReadsAlike (d.parse disk origin bytes).result (d.parse disk origin bytes').result := by
  simp only [Document.parse, Traced.result_bind, h.rejected]
  split
  · exact ⟨h.document, rfl, h.warnings, h.rejected⟩
  · exact ⟨h.document, rfl, h.warnings, h.rejected⟩

/-- Spaces at the end of a line of bytes, before a carriage return or after it, are spaces in its
text. -/
theorem Utf8.decode_padded (body : List UInt8) {tail : List UInt8}
    (h : tail = [] ∨ tail.head? = some 13) (n : Nat) :
    decode (body ++ (List.replicate n 32 ++ tail)) =
      decode body ++ (List.replicate n ' ' ++ decode tail) := by
  have hsplit (xs : List UInt8) : decode (xs ++ tail) = decode xs ++ decode tail := by
    cases tail with
    | nil => rw [List.append_nil]; exact (List.append_nil _).symm
    | cons b tail =>
      obtain rfl : b = 13 := by simpa using h
      exact decode_append_cons xs (by decide) tail
  rw [← List.append_assoc, hsplit, decode_append_replicate, List.append_assoc]

/-- What starts with a carriage return does so after it was decoded. -/
theorem Utf8.head?_decode {tail : List UInt8} (h : tail = [] ∨ tail.head? = some 13) :
    decode tail = [] ∨ (decode tail).head? = some '\r' := by
  cases tail with
  | nil => exact .inl rfl
  | cons b tail =>
    obtain rfl : b = 13 := by simpa using h
    exact .inr rfl

/-- Spaces at the end of an option line change nothing, but behind the word for null and behind the
version of the text. -/
theorem Document.readsAlike_of_padded (d : Document) (disk : Disk) (origin : String)
    {bytes bytes' : List UInt8} {before after : List (List UInt8)} {body tail : List UInt8}
    {spaces : Nat} (hbytes : linesOf bytes = before ++ (body ++ tail) :: after)
    (hbytes' : linesOf bytes' = before ++ (body ++ (List.replicate spaces 32 ++ tail)) :: after)
    (htail : tail = [] ∨ tail.head? = some 13) {name raw : String}
    (hline : Line.ofText (Utf8.decode (body ++ tail)) = .option name (some raw))
    (hnull : raw ≠ nullText)
    (hversion : name = Line.versionName →
      (∃ l ∈ before, (Line.ofText (Utf8.decode l)).isHeader = true) ∨
        Line.version? (some raw) = none) :
    ReadsAlike (d.parse disk origin bytes).result (d.parse disk origin bytes').result := by
  have htext : Utf8.decode (body ++ tail) = Utf8.decode body ++ Utf8.decode tail :=
    Utf8.decode_padded body htail 0
  rw [htext] at hline
  obtain ⟨m, hpadded⟩ := Line.exists_ofText_append spaces (Utf8.head?_decode htail) hline
  have hstart : Intake.Alike { document := { d with versionRead := 1 } }
      { document := { d with versionRead := 1 } } := ⟨rfl, rfl, rfl, rfl, rfl⟩
  refine Intake.Alike.readsAlike_parse ?_ disk
  unfold takeIn
  rw [hbytes, hbytes', List.map_append, List.map_append, List.map_cons, List.map_cons, htext,
    Utf8.decode_padded body htail]
  refine hstart.takeLines_append origin _ _ fun standing hinside => ?_
  rw [hline, hpadded]
  refine .option (Line.decodeValue_padded hnull m).symm fun houtside hname => ?_
  rcases hversion hname with ⟨l, hl, hheader⟩ | hnone
  · -- The header that came before says that this is not the version.
    exact absurd houtside (hinside (.inr ⟨_, List.mem_map_of_mem hl, hheader⟩))
  · rw [hnone, Line.version?_padded hnone]

/-- A file with an option for a text, which may be null. -/
def jotter : Document where
  name := "app"
  priority := 1000
  sections := [stock "look" {} [
    { file := "app", sectionName := "look", name := "note", parent := none, domain := .string 0 0,
      labels := [], description := "", nullable := true, default := none,
      value := some (.string "old"), check := none, tellsChange := false, tellsRemoval := false }]]

/-- A text with a line for that option. -/
def jot (line : String) : List UInt8 :=
  Utf8.encode ("[look]\n" ++ line ++ "\n").toList

/-- The spaces behind the quotes, before the carriage return, are not part of the value. -/
theorem readsAlike_of_padded_jot :
    (jotter.parse {} "" (jot "note = \"two words\"  \r")).result.1.value? "look" "note" =
      some (some (.string "two words")) := by
  have hbytes : linesOf (jot "note = \"two words\"\r") = [Utf8.encode "[look]".toList] ++
      (Utf8.encode "note = \"two words\"".toList ++ [13]) :: [] := by decide +kernel
  have hbytes' : linesOf (jot "note = \"two words\"  \r") = [Utf8.encode "[look]".toList] ++
      (Utf8.encode "note = \"two words\"".toList ++ (List.replicate 2 32 ++ [13])) :: [] := by
    decide +kernel
  have hline : Line.ofText (Utf8.decode (Utf8.encode "note = \"two words\"".toList ++ [13])) =
      .option "note" (some "\"two words\"") := by decide +kernel
  have h := Document.readsAlike_of_padded jotter {} "" hbytes hbytes' (.inr rfl) hline (by decide)
    (fun hname => absurd hname (by decide))
  rw [← h.document]
  decide +kernel

/-- A space behind the word for null makes a difference: the option is null without it, and a text
with it. So does a space behind the version of a text, which is rejected with it. -/
theorem differs_of_padded_jot :
    linesOf (jot "note = null") =
        [Utf8.encode "[look]".toList] ++ Utf8.encode "note = null".toList :: [] ∧
      linesOf (jot "note = null ") =
        [Utf8.encode "[look]".toList] ++ (Utf8.encode "note = null".toList ++ [32]) :: [] ∧
      Line.ofText (Utf8.decode (Utf8.encode "note = null".toList)) = .option "note" (some "null") ∧
      (jotter.parse {} "" (jot "note = null")).result.1.value? "look" "note" ≠
        (jotter.parse {} "" (jot "note = null ")).result.1.value? "look" "note" ∧
      (jotter.parse {} "" (Utf8.encode "config_version = 1".toList)).result.2.2.rejected = none ∧
      (jotter.parse {} ""
        (Utf8.encode "config_version = 1 ".toList)).result.2.2.rejected.isSome := by
  decide +kernel

end TypedConfig
