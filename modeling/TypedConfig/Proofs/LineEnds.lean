import TypedConfig.Proofs.Padding

/-!
# Ends of lines

Of a line nothing is looked at from its first carriage return or line feed on
(`Line.content_append_break`), so two texts are taken in alike if their lines have the same contents
(`Intake.takeLines_congr`). That is so for a text and the same text with a carriage return before
each line feed, and for a text whose last line has no line feed and the same text with one
(`Document.parse_of_lineEnds`). The bytes need not be those of a text: a character that the end of
its line cuts off is one replacement character, whichever end that is. For the same reason a line
may be decoded with the line feed that ends it (`Document.takeIn_eq_takeLines_linesWithFeeds`).
-/

namespace TypedConfig

/-! ## One line -/

/-- What a line break cuts off is not looked at. -/
theorem Line.content_append_break {c : Char} (h : c = '\r' ∨ c = '\n') (text rest : List Char) :
    content (text ++ c :: rest) = content text := by
  -- Spaces may stand on both sides of the break, so they are dropped after it was cut off.
  rw [← dropSpaces_takeWhile, ← dropSpaces_takeWhile]
  congr 1
  induction text with
  | nil => rcases h with rfl | rfl <;> rfl
  | cons d text ih => rw [List.cons_append, List.takeWhile_cons, List.takeWhile_cons, ih]

/-- A line break at the end of a line of bytes is not looked at, even if it comes within a
character. So a line may be decoded with its line feed or without it. -/
theorem Line.content_decode_break {b : UInt8} (h : b = 13 ∨ b = 10) (line : List UInt8) :
    content (Utf8.decode (line ++ [b])) = content (Utf8.decode line) := by
  have hreturn : Utf8.decode [13] = ['\r'] := rfl
  have hfeed : Utf8.decode [10] = ['\n'] := rfl
  rcases h with rfl | rfl
  · rw [Utf8.decode_append_cons line (by decide), hreturn]
    exact content_append_break (.inl rfl) _ _
  · rw [Utf8.decode_append_cons line (by decide), hfeed]
    exact content_append_break (.inr rfl) _ _

namespace Intake

/-- A line is taken in by its content. -/
theorem takeLine_congr {line line' : List Char} (h : Line.content line = Line.content line')
    (origin : String) (t : Intake) : t.takeLine origin line = t.takeLine origin line' := by
  unfold takeLine Line.ofText
  rw [h]

/-- Lines with the same contents are taken in alike, with the same events. -/
theorem takeLines_congr (origin : String) {lines lines' : List (List Char)}
    (h : lines.map Line.content = lines'.map Line.content) (t : Intake) :
    takeLines origin lines t = takeLines origin lines' t := by
  induction lines generalizing lines' t with
  | nil => rw [List.map_eq_nil_iff.1 h.symm]
  | cons line lines ih =>
    obtain ⟨line', lines', rfl, hline, hlines⟩ := List.map_eq_cons_iff.1 h.symm
    unfold takeLines
    rw [takeLine_congr hline.symm]
    congr 1
    funext t
    rw [ih hlines.symm]

end Intake

/-! ## The lines of a text -/

/-- Bytes with a carriage return before each line feed. -/
def withReturns (bytes : List UInt8) : List UInt8 :=
  bytes.flatMap fun b => if b = 10 then [13, 10] else [b]

/-- Lines of bytes, and the same lines with a byte at the ends of some of them. -/
def Ended (b : UInt8) : List (List UInt8) → List (List UInt8) → Prop :=
  List.Forall₂ fun line line' => line' = line ∨ line' = line ++ [b]

/-- A byte put before a text belongs to the next line, or is a line of its own at the end. -/
theorem Ended.prepend {b : UInt8} (c : UInt8) {lines lines' : List (List UInt8)} :
    Ended b lines lines' → Ended b
      (match lines with | line :: rest => (c :: line) :: rest | [] => [[c]])
      (match lines' with | line :: rest => (c :: line) :: rest | [] => [[c]]) := by
  intro h
  cases h with
  | nil => exact List.Forall₂.cons (.inl rfl) .nil
  | cons hline hlines =>
    refine List.Forall₂.cons ?_ hlines
    rcases hline with rfl | rfl
    · exact .inl rfl
    · exact .inr rfl

/-- What is looked at of lines is the same with and without line breaks at their ends. -/
theorem Ended.contents {b : UInt8} (hb : b = 13 ∨ b = 10) {lines lines' : List (List UInt8)}
    (h : Ended b lines lines') :
    (lines'.map Utf8.decode).map Line.content = (lines.map Utf8.decode).map Line.content := by
  induction h with
  | nil => rfl
  | cons hline _ ih =>
    simp only [List.map_cons, ih]
    rcases hline with rfl | rfl
    · rfl
    · rw [Line.content_decode_break hb]

/-- The carriage returns are at the ends of those lines that a line feed ends. -/
theorem ended_withReturns (bytes : List UInt8) :
    Ended 13 (linesOf bytes) (linesOf (withReturns bytes)) := by
  induction bytes with
  | nil => exact .nil
  | cons b bytes ih =>
    by_cases hb : b = 10
    · subst hb
      have hlines : linesOf (withReturns (10 :: bytes)) = [13] :: linesOf (withReturns bytes) := rfl
      rw [hlines, linesOf, if_pos rfl]
      exact List.Forall₂.cons (.inr rfl) ih
    · have hbytes : withReturns (b :: bytes) = b :: withReturns bytes := by
        rw [withReturns, List.flatMap_cons, if_neg hb]
        rfl
      rw [hbytes, linesOf, linesOf, if_neg hb, if_neg hb]
      exact ih.prepend b

/-- The lines of bytes as a reader gets them that stops behind each line feed. -/
def linesWithFeeds : List UInt8 → List (List UInt8)
  | [] => []
  | b :: bs =>
    if b = 10 then [10] :: linesWithFeeds bs
    else match linesWithFeeds bs with
      | line :: lines => (b :: line) :: lines
      | [] => [[b]]

/-- With their line feeds the lines are all of the bytes. -/
theorem flatten_linesWithFeeds (bytes : List UInt8) : (linesWithFeeds bytes).flatten = bytes := by
  induction bytes with
  | nil => rfl
  | cons b bytes ih =>
    unfold linesWithFeeds
    split
    · next hb => rw [List.flatten_cons, ih, hb, List.singleton_append]
    · generalize linesWithFeeds bytes = lines at ih ⊢
      cases lines with
      | nil => rw [← ih]; rfl
      | cons line lines => rw [← ih]; rfl

/-- They are the lines without, each of which has its line feed but perhaps the last. -/
theorem ended_linesWithFeeds (bytes : List UInt8) :
    Ended 10 (linesOf bytes) (linesWithFeeds bytes) := by
  induction bytes with
  | nil => exact .nil
  | cons b bytes ih =>
    unfold linesOf linesWithFeeds
    split
    · exact List.Forall₂.cons (.inr rfl) ih
    · exact ih.prepend b

/-- A line feed at the end of a last line without one makes no other line of it. -/
theorem linesOf_append_of_getLast? {bytes : List UInt8} (hne : bytes ≠ [])
    (hlast : bytes.getLast? ≠ some 10) : linesOf (bytes ++ [10]) = linesOf bytes := by
  induction bytes with
  | nil => exact absurd rfl hne
  | cons b bytes ih =>
    cases bytes with
    | nil =>
      have hb : b ≠ 10 := fun e => hlast (congrArg some e)
      simp only [List.cons_append, List.nil_append, linesOf, if_neg hb, if_true]
    | cons c bytes =>
      have hrest := ih (List.cons_ne_nil _ _) (by rwa [List.getLast?_cons_cons] at hlast)
      rw [List.cons_append, linesOf, hrest]
      rfl

namespace Document

/-- A line may be decoded with its line feed: the same is taken in, with the same events, as from
the lines that have lost theirs. -/
theorem takeIn_eq_takeLines_linesWithFeeds (d : Document) (origin : String) (bytes : List UInt8) :
    d.takeIn origin bytes = Intake.takeLines origin ((linesWithFeeds bytes).map Utf8.decode)
      { document := { d with versionRead := 1 } } :=
  (Intake.takeLines_congr origin ((ended_linesWithFeeds bytes).contents (.inr rfl)) _).symm

/-- A text is for a file what is looked at of its lines. -/
theorem parse_congr {bytes bytes' : List UInt8}
    (h : ((linesOf bytes).map Utf8.decode).map Line.content =
      ((linesOf bytes').map Utf8.decode).map Line.content)
    (d : Document) (disk : Disk) (origin : String) :
    d.parse disk origin bytes = d.parse disk origin bytes' := by
  have htaken : d.takeIn origin bytes = d.takeIn origin bytes' := Intake.takeLines_congr origin h _
  unfold parse
  rw [htaken]

/-- It makes no difference to a file whether lines end with a line feed or with a carriage return
and a line feed, nor whether the last line has one: the report is the same, and so are the file and
the disk afterwards and all that happens on the way. -/
theorem parse_of_lineEnds (d : Document) (disk : Disk) (origin : String) (bytes : List UInt8) :
    d.parse disk origin (withReturns bytes) = d.parse disk origin bytes ∧
      (bytes ≠ [] → bytes.getLast? ≠ some 10 →
        d.parse disk origin (bytes ++ [10]) = d.parse disk origin bytes) := by
  constructor
  · exact parse_congr ((ended_withReturns bytes).contents (.inl rfl)) d disk origin
  · intro hne hlast
    refine parse_congr ?_ d disk origin
    rw [linesOf_append_of_getLast? hne hlast]

/-- A text without a line feed at its end, where each line breaks off within a character. -/
def brokenOff : List UInt8 :=
  Utf8.encode "[look]\nnote = caf".toList ++ [0xC3, 10] ++
    Utf8.encode "nothing".toList ++ [0xE2, 0x82]

/-- The two bytes that are missing at the end of the lines are missed in the same way before a
carriage return, before a line feed and at the end: the note has one replacement character, and so
has the text of the one warning. -/
theorem parse_of_lineEnds_brokenOff :
    withReturns brokenOff ≠ brokenOff ∧ brokenOff ≠ [] ∧ brokenOff.getLast? ≠ some 10 ∧
      (jotter.parse {} "" (withReturns brokenOff)).result.1.value? "look" "note" =
        some (some (.string "caf\uFFFD")) ∧
      (jotter.parse {} "" (brokenOff ++ [10])).result.2.2.warnings =
        [⟨3, .unknownOption, "nothing\uFFFD"⟩] := by
  have hne : brokenOff ≠ [] := by decide +kernel
  have hlast : brokenOff.getLast? ≠ some 10 := by decide +kernel
  obtain ⟨hreturns, hfeed⟩ := parse_of_lineEnds jotter {} "" brokenOff
  refine ⟨by decide +kernel, hne, hlast, ?_, ?_⟩
  · rw [hreturns]
    decide +kernel
  · rw [hfeed hne hlast]
    decide +kernel

end Document

end TypedConfig
