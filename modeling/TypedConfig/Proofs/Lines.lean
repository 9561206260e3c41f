import Mathlib.Data.List.TakeWhile
import TypedConfig.Document.Parse
import TypedConfig.Proofs.Offsets
import TypedConfig.Proofs.Values

/-!
# Reading what was written, line by line

Lines that are written one after the other are read as the same lines
(`map_decode_linesOf_unlines`). A header is read as a header of its name (`Line.ofText_headerLine`),
and the line of an option as one for its name with the text that was written
(`Line.ofText_optionLine`), from which the canonical text of the value is taken
(`Domain.decodeValue_formatForFile`). A change to that text leads to a value of the same text
(`Domain.accept?_format`).
-/

namespace TypedConfig

/-! ## Lines of a text -/

/-- A text without line breaks. -/
def Text.OneLine (cs : List Char) : Prop :=
  '\r' ∉ cs ∧ '\n' ∉ cs

/-- Lines, each with a line feed at its end. -/
def Text.unlines (lines : List (List Char)) : List Char :=
  lines.flatMap fun line => line ++ ['\n']

/-- Only the line feed has the byte of a line feed. -/
theorem Utf8.eq_lineFeed_of_mem {c : Char} (h : (10 : UInt8) ∈ String.utf8EncodeChar c) :
    c = '\n' := by
  have hc := Char.ofNat_toNat c
  have hval : c.val.toNat = c.toNat := rfl
  have hbyte (n : Nat) (hn : n < 256) (h : 10 = UInt8.ofNat n) : n = 10 := by
    have hn' := toNat_ofNat_of_lt hn
    rw [← h] at hn'
    exact hn'.symm
  simp only [String.utf8EncodeChar, hval] at h
  generalize c.toNat = v at h hc
  -- Every byte of a longer encoding is above the ones of seven bits.
  split at h
  · obtain rfl := hbyte v (by omega) (List.mem_singleton.1 h)
    exact hc.symm
  · split at h
    · simp only [List.mem_cons, List.not_mem_nil, or_false] at h
      rcases h with h | h
      · have := hbyte _ (by omega) h
        omega
      · have := hbyte _ (by omega) h
        omega
    · split at h
      · simp only [List.mem_cons, List.not_mem_nil, or_false] at h
        rcases h with h | h | h <;> have := hbyte _ (by omega) h <;> omega
      · simp only [List.mem_cons, List.not_mem_nil, or_false] at h
        rcases h with h | h | h | h <;> have := hbyte _ (by omega) h <;> omega

/-- Without a line feed, a text has no byte of one. -/
theorem Utf8.not_mem_encode {cs : List Char} (h : '\n' ∉ cs) : 10 ∉ encode cs := by
  intro hmem
  obtain ⟨c, hc, hbyte⟩ := List.mem_flatMap.1 hmem
  obtain rfl := eq_lineFeed_of_mem hbyte
  exact h hc

/-- The bytes before a line feed are a line. -/
theorem linesOf_append {line : List UInt8} (h : 10 ∉ line) (rest : List UInt8) :
    linesOf (line ++ 10 :: rest) = line :: linesOf rest := by
  induction line with
  | nil => rfl
  | cons b line ih =>
    have hb : b ≠ 10 := fun e => h (e ▸ List.mem_cons_self ..)
    have hline : 10 ∉ line := fun m => h (List.mem_cons_of_mem _ m)
    simp only [List.cons_append, linesOf, if_neg hb, ih hline]

/-- Bytes have a line. -/
theorem linesOf_ne_nil {bs : List UInt8} (h : bs ≠ []) : linesOf bs ≠ [] := by
  cases bs with
  | nil => exact absurd rfl h
  | cons b bs =>
    unfold linesOf
    split
    · exact List.cons_ne_nil _ _
    · split <;> exact List.cons_ne_nil _ _

/-- A line feed ends a line, whatever stands before it. -/
theorem linesOf_append_lineFeed (bs cs : List UInt8) :
    linesOf (bs ++ 10 :: cs) = linesOf (bs ++ [10]) ++ linesOf cs := by
  induction bs with
  | nil => rfl
  | cons b bs ih =>
    by_cases hb : b = 10
    · simp only [List.cons_append, linesOf, if_pos hb, ih]
    · simp only [List.cons_append, linesOf, if_neg hb, ih]
      -- Up to the line feed there is at least one line.
      cases hlines : linesOf (bs ++ [10]) with
      | nil => exact absurd hlines (linesOf_ne_nil (by simp))
      | cons line lines => rfl

/-- The bytes of one more line end with those of its line feed. -/
theorem encode_unlines_concat (lines : List (List Char)) (line : List Char) :
    Utf8.encode (Text.unlines (lines ++ [line])) =
      Utf8.encode (Text.unlines lines) ++ Utf8.encode line ++ [10] := by
  have hfeed : String.utf8EncodeChar '\n' = [10] := by decide
  simp only [Utf8.encode, Text.unlines, List.flatMap_append, List.flatMap_cons, List.flatMap_nil,
    List.append_nil, hfeed, List.append_assoc]

/-- Lines that are written in two parts are read part by part, even if line feeds in them make more
lines of them. -/
theorem linesOf_unlines_append (ls ms : List (List Char)) :
    linesOf (Utf8.encode (Text.unlines (ls ++ ms))) =
      linesOf (Utf8.encode (Text.unlines ls)) ++ linesOf (Utf8.encode (Text.unlines ms)) := by
  have happend : Utf8.encode (Text.unlines (ls ++ ms)) =
      Utf8.encode (Text.unlines ls) ++ Utf8.encode (Text.unlines ms) := by
    simp only [Utf8.encode, Text.unlines, List.flatMap_append]
  rw [happend]
  rcases List.eq_nil_or_concat ls with rfl | ⟨ls, line, rfl⟩
  · rfl
  · rw [List.concat_eq_append, encode_unlines_concat, List.append_assoc, List.singleton_append,
      linesOf_append_lineFeed]

/-- Lines that are written one after the other are read as these lines. -/
theorem map_decode_linesOf_unlines {lines : List (List Char)} (h : ∀ line ∈ lines, '\n' ∉ line) :
    (linesOf (Utf8.encode (Text.unlines lines))).map Utf8.decode = lines := by
  induction lines with
  | nil => rfl
  | cons line lines ih =>
    have hbytes : 10 ∉ Utf8.encode line :=
      Utf8.not_mem_encode (h line (List.mem_cons_self ..))
    have hencode : Utf8.encode (Text.unlines (line :: lines)) =
        Utf8.encode line ++ 10 :: Utf8.encode (Text.unlines lines) := by
      have hfeed : String.utf8EncodeChar '\n' = [10] := by decide
      simp only [Utf8.encode, Text.unlines, List.flatMap_cons, List.flatMap_append,
        List.flatMap_nil, List.append_assoc, hfeed]
      rfl
    rw [hencode, linesOf_append hbytes, List.map_cons, Utf8.decode_encode,
      ih fun l hl => h l (List.mem_cons_of_mem _ hl)]

namespace Line

/-! ## One line -/

/-- A name that an option line can hold. -/
structure IsName (name : List Char) : Prop where
  head : name.head? ≠ some ' '
  last : name.getLast? ≠ some ' '
  mark : ¬ mark <:+: name
  oneLine : Text.OneLine name

/-- The line of an option, without its line feed. -/
def optionLine (name : String) (value : Option String) : List Char :=
  (escape name).toList ++ (name.toList ++ (match value with
    | some text => ' ' :: '=' :: ' ' :: text.toList
    | none => []))

/-- The header of a section, without its line feed. -/
def headerLine (name : String) : List Char :=
  '[' :: (name.toList ++ [']'])

/-- The text of an option is its line, with a line feed. -/
theorem toList_optionText (name : String) (value : Option String) :
    (optionText name value).toList = optionLine name value ++ ['\n'] := by
  unfold optionText optionLine
  cases value <;> simp

/-- The text of a header is an empty line and then its own. -/
theorem toList_headerText (name : String) :
    (headerText name).toList = Text.unlines [[], headerLine name] := by
  simp [headerText, headerLine, Text.unlines]

/-- A text that starts with no space loses none. -/
theorem dropSpaces_of_head? {cs : List Char} (h : cs.head? ≠ some ' ') :
    Text.dropSpaces cs = cs := by
  cases cs with
  | nil => rfl
  | cons c cs =>
    have hc : c ≠ ' ' := fun e => h (by rw [e]; rfl)
    simp [Text.dropSpaces, hc]

/-- A text without line breaks is kept up to its end. -/
theorem kept_of_oneLine {cs : List Char} (h : Text.OneLine cs) :
    ∀ c ∈ cs, (c != '\r' && c != '\n') = true := by
  intro c hc
  have hreturn : c ≠ '\r' := fun e => h.1 (e ▸ hc)
  have hfeed : c ≠ '\n' := fun e => h.2 (e ▸ hc)
  simp [hreturn, hfeed]

/-- Of a text without line breaks all is looked at but the spaces at its start. -/
theorem content_eq_dropSpaces {cs : List Char} (h : Text.OneLine cs) :
    content cs = Text.dropSpaces cs := by
  unfold content
  rw [List.takeWhile_eq_self_iff]
  exact fun c hc => kept_of_oneLine h c ((List.dropWhile_suffix _).subset hc)

/-- A line that does not start with a space is looked at as a whole. -/
theorem content_of_oneLine {cs : List Char} (hhead : cs.head? ≠ some ' ')
    (hline : Text.OneLine cs) : content cs = cs := by
  rw [content_eq_dropSpaces hline, dropSpaces_of_head? hhead]

/-- It makes no difference whether leading spaces are dropped before the line break is cut off. -/
theorem dropSpaces_takeWhile (cs : List Char) :
    Text.dropSpaces (cs.takeWhile fun c => c != '\r' && c != '\n') = content cs := by
  induction cs with
  | nil => rfl
  | cons c cs ih =>
    by_cases hspace : c = ' '
    · subst hspace
      exact ih
    · have hhead (cs : List Char) : (c :: cs).head? ≠ some ' ' :=
        fun h => hspace (Option.some.inj h)
      unfold content
      rw [dropSpaces_of_head? (hhead cs), List.takeWhile_cons]
      split
      · exact dropSpaces_of_head? (hhead _)
      · rfl

/-- A comment says nothing. -/
theorem ofText_comment (cs : List Char) : ofText ('#' :: cs) = .skipped := by
  simp [ofText, content, Text.dropSpaces, ofContent]

/-- A header has one line. -/
theorem oneLine_headerLine {name : String} (h : Text.OneLine name.toList) :
    Text.OneLine (headerLine name) := by
  simpa [Text.OneLine, headerLine] using h

/-- A header is read as one of its name. -/
theorem ofText_headerLine {name : String} (hline : Text.OneLine name.toList)
    (hbracket : ']' ∉ name.toList) (hequals : '=' ∉ name.toList) :
    ofText (headerLine name) = .header name := by
  have hcontent : content (headerLine name) = headerLine name :=
    content_of_oneLine (by simp [headerLine]) (oneLine_headerLine hline)
  have hplain : (name.toList ++ [']']).contains '=' = false := by simp [hequals]
  unfold ofText
  rw [hcontent]
  simp only [headerLine, ofContent, hplain, Bool.false_eq_true, if_false]
  rw [Text.cut?_singleton_append hbracket]
  simp

/-- Nothing but the start of a line is taken off. -/
theorem unescaped_suffix (line : List Char) : unescaped line <:+ line := by
  unfold unescaped
  split
  · exact List.suffix_cons ..
  · exact List.suffix_rfl

/-- A line that starts with no escape stays as it is. -/
theorem unescaped_cons_of_ne {c : Char} (h : c ≠ '\\') (rest : List Char) :
    unescaped (c :: rest) = c :: rest := by
  unfold unescaped
  split
  · next hline => exact absurd (List.cons.inj hline).1 h
  · rfl

/-- The escape is the first character, so nothing behind a line matters to it. -/
theorem unescaped_append {line : List Char} (h : line ≠ []) (tail : List Char) :
    unescaped (line ++ tail) = unescaped line ++ tail := by
  cases line with
  | nil => exact absurd rfl h
  | cons c rest =>
    by_cases hc : c = '\\'
    · subst hc
      rfl
    · rw [List.cons_append, unescaped_cons_of_ne hc, unescaped_cons_of_ne hc, List.cons_append]

/-- What the escape is put before is read as an option, whatever its first character is. -/
theorem ofContent_escape {name : String} (hname : name.toList ≠ []) (tail : List Char) :
    ofContent ((escape name).toList ++ (name.toList ++ tail)) =
      match Text.cut? mark (name.toList ++ tail) with
      | some (name, raw) =>
        .option (String.ofList (Text.dropSpacesRight name))
          (some (String.ofList (Text.dropSpaces raw)))
      | none => .option (String.ofList (name.toList ++ tail)) none := by
  -- The escape stands before the very characters that mean something at the start of a line.
  unfold escape
  cases hcs : name.toList with
  | nil => exact absurd hcs hname
  | cons c cs =>
    split
    · rfl
    · rfl
    · rfl
    · next hhash hbracket hslash =>
      have hc : c ≠ '#' ∧ c ≠ '[' ∧ c ≠ '\\' :=
        ⟨fun e => hhash cs (e ▸ rfl), fun e => hbracket cs (e ▸ rfl), fun e => hslash cs (e ▸ rfl)⟩
      have hplain : ofContent (c :: (cs ++ tail)) = ofOptionText (c :: (cs ++ tail)) := by
        unfold ofContent
        split <;> simp_all
      show ofContent (c :: (cs ++ tail)) = _
      rw [hplain, ofOptionText, unescaped_cons_of_ne hc.2.2]
      rfl

/-- Without the mark in it, a text is not cut at the mark. -/
theorem cut?_mark_eq_none {cs : List Char} (h : ¬ mark <:+: cs) : Text.cut? mark cs = none := by
  cases hcut : Text.cut? mark cs with
  | none => rfl
  | some p => exact absurd ⟨p.1, p.2, (Text.eq_append_of_cut? hcut).symm⟩ h

/-- An option line is cut right behind its name. -/
theorem cut?_mark_append {cs : List Char} (hlast : cs.getLast? ≠ some ' ') (h : ¬ mark <:+: cs)
    (rest : List Char) : Text.cut? mark (cs ++ ' ' :: '=' :: rest) = some (cs, rest) := by
  induction cs with
  | nil => rfl
  | cons c cs ih =>
    have htail : cs.getLast? ≠ some ' ' := by
      intro hspace
      cases cs with
      | nil => cases hspace
      | cons d ds => exact hlast hspace
    have hnone : mark.isPrefixOf? (c :: (cs ++ ' ' :: '=' :: rest)) = none := by
      cases hp : mark.isPrefixOf? (c :: (cs ++ ' ' :: '=' :: rest)) with
      | none => rfl
      | some rest' =>
        -- The mark would start within the name and end within it or behind it.
        obtain ⟨rfl, hcs⟩ := List.cons.inj (Text.eq_append_of_isPrefixOf? hp)
        cases cs with
        | nil => exact absurd rfl hlast
        | cons d ds =>
          obtain ⟨rfl, _⟩ := List.cons.inj hcs
          exact absurd ⟨[], ds, rfl⟩ h
    have hrest : ¬ mark <:+: cs := fun hmark => h (hmark.trans (List.suffix_cons c cs).isInfix)
    have hcut := ih htail hrest
    rw [List.cons_append, Text.cut?, hnone, hcut]
    rfl

/-- The name of a version line is one that a line can hold. -/
theorem isName_versionName : IsName versionName.toList where
  head := by decide
  last := by decide
  mark hmark := by
    -- The mark starts with a space, and the name has none.
    have hspace := hmark.subset (List.mem_cons_self ..)
    exact absurd hspace (by decide)
  oneLine := by
    unfold Text.OneLine
    decide

/-- Before a name stands nothing, or a backslash. -/
theorem escape_cases (name : String) :
    (escape name).toList = [] ∨ (escape name).toList = ['\\'] := by
  unfold escape
  split <;> simp

/-- A character that stands neither in the name nor in the text stands in the line only if it is one
that lines add. -/
theorem not_mem_optionLine {c : Char} (hc : c ∉ ['\\', ' ', '=']) {name : String}
    (hname : c ∉ name.toList) {value : Option String}
    (hvalue : ∀ text, value = some text → c ∉ text.toList) : c ∉ optionLine name value := by
  unfold optionLine
  rcases escape_cases name with he | he <;> cases value <;> simp_all

/-- An option has one line. -/
theorem oneLine_optionLine {name : String} (hname : Text.OneLine name.toList)
    {value : Option String} (hvalue : ∀ text, value = some text → Text.OneLine text.toList) :
    Text.OneLine (optionLine name value) :=
  ⟨not_mem_optionLine (by decide) hname.1 fun text h => (hvalue text h).1,
    not_mem_optionLine (by decide) hname.2 fun text h => (hvalue text h).2⟩

/-- A line of an option does not start with a space if the name does not. -/
theorem head?_optionLine {name : String} (hne : name ≠ "") (hhead : name.toList.head? ≠ some ' ')
    (value : Option String) : (optionLine name value).head? ≠ some ' ' := by
  unfold optionLine
  rcases escape_cases name with he | he
  · rw [he, List.nil_append]
    cases hcs : name.toList with
    | nil => exact absurd (String.toList_eq_nil_iff.1 hcs) hne
    | cons c cs =>
      rw [hcs] at hhead
      exact hhead
  · rw [he]
    simp

/-- A line without a value is read as the bare name, to which the spaces at its end belong. -/
theorem ofText_bareLine {name : String} (hne : name ≠ "") (hhead : name.toList.head? ≠ some ' ')
    (hmark : ¬ mark <:+: name.toList) (hline : Text.OneLine name.toList) :
    ofText (optionLine name none) = .option name none := by
  have hchars : name.toList ≠ [] := fun h => hne (String.toList_eq_nil_iff.1 h)
  have hbare : optionLine name none = (escape name).toList ++ (name.toList ++ []) := rfl
  unfold ofText
  rw [content_of_oneLine (head?_optionLine hne hhead none) (oneLine_optionLine hline nofun), hbare,
    ofContent_escape hchars]
  simp [cut?_mark_eq_none hmark]

/-- An option line is read as one for its name, with as much of the text as is looked at. -/
theorem ofText_optionLine_content {name : String} (hne : name ≠ "") (hname : IsName name.toList)
    (value : Option String) :
    ofText (optionLine name value) =
      .option name (value.map fun text => String.ofList (content text.toList)) := by
  cases value with
  | none => exact ofText_bareLine hne hname.head hname.mark hname.oneLine
  | some text =>
    have hchars : name.toList ≠ [] := fun h => hne (String.toList_eq_nil_iff.1 h)
    have hhead := head?_optionLine hne hname.head (some text)
    -- A line break can only stand behind the mark.
    have hline : optionLine name (some text) =
        ((escape name).toList ++ name.toList) ++ ' ' :: '=' :: ' ' :: text.toList :=
      (List.append_assoc ..).symm
    have hstart : ∀ c ∈ (escape name).toList ++ name.toList, (c != '\r' && c != '\n') = true := by
      refine List.forall_mem_append.2 ⟨?_, kept_of_oneLine hname.oneLine⟩
      rcases escape_cases name with he | he <;> simp [he]
    have htail : (' ' :: '=' :: ' ' :: text.toList).takeWhile (fun c => c != '\r' && c != '\n') =
        ' ' :: '=' :: ' ' :: text.toList.takeWhile fun c => c != '\r' && c != '\n' := rfl
    have hspace : Text.dropSpaces (' ' :: text.toList.takeWhile fun c => c != '\r' && c != '\n') =
        content text.toList := dropSpaces_takeWhile text.toList
    have hcontent : content (optionLine name (some text)) = (escape name).toList ++ (name.toList ++
        ' ' :: '=' :: ' ' :: text.toList.takeWhile fun c => c != '\r' && c != '\n') := by
      unfold content
      rw [dropSpaces_of_head? hhead, hline, List.takeWhile_append_of_pos hstart, htail,
        List.append_assoc]
    rw [ofText, hcontent, ofContent_escape hchars]
    simp only [cut?_mark_append hname.last hname.mark, hspace,
      Text.dropSpacesRight_of_getLast? hname.last, String.ofList_toList, Option.map_some]

/-- An option line is read as one for its name with the text that was written. -/
theorem ofText_optionLine {name : String} (hne : name ≠ "") (hname : IsName name.toList)
    {value : Option String} (hvalue : ∀ text, value = some text → Text.OneLine text.toList)
    (hspaces : ∀ text, value = some text → text.toList.head? ≠ some ' ') :
    ofText (optionLine name value) = .option name value := by
  rw [ofText_optionLine_content hne hname]
  cases value with
  | none => rfl
  | some text =>
    rw [Option.map_some, content_of_oneLine (hspaces text rfl) (hvalue text rfl),
      String.ofList_toList]

/-! ## Texts without quotes -/

/-- A text that a line holds as it is, without quotes, and that asks for no offset. -/
structure IsPlain (text : String) : Prop where
  ne_null : text ≠ nullText
  oneLine : Text.OneLine text.toList
  head : text.toList.head? ≠ some ' '
  last : text.toList.getLast? ≠ some ' '
  /-- There are no two quotes of one sort around the text. -/
  unquoted : ∀ q middle, (q = '"' ∨ q = '\'') → text.toList ≠ q :: (middle ++ [q])
  noIncrease : ¬ ['+', '+'] <+: text.toList
  noDecrease : ¬ ['-', '-'] <+: text.toList

/-- What a plain text stands for is the text. -/
theorem IsPlain.decodeValue {text : String} (h : IsPlain text) :
    decodeValue text = some text := by
  have hunquote : unquote text.toList = text.toList := by
    unfold unquote
    split
    · next hnil => exact hnil.symm
    · next q rest hcs =>
      split
      · next hquoted =>
        obtain ⟨middle, hmiddle⟩ := List.getLast?_eq_some_iff.1 hquoted.2
        exact absurd (by rw [hcs, hmiddle]) (h.unquoted q middle hquoted.1)
      · rfl
  unfold Line.decodeValue
  rw [if_neg h.ne_null, Text.dropSpacesRight_of_getLast? h.last, hunquote, String.ofList_toList]

/-- What a text in quotes stands for is the text. -/
theorem decodeValue_quoted (text : String) : decodeValue ("\"" ++ text ++ "\"") = some text := by
  have hcs : ("\"" ++ text ++ "\"").toList = '"' :: (text.toList ++ ['"']) := by simp
  have hne : "\"" ++ text ++ "\"" ≠ nullText := by
    intro h
    have hfirst := congrArg (fun s => s.toList.head?) h
    rw [hcs] at hfirst
    exact absurd hfirst (by simp [nullText])
  have hlast : ('"' :: (text.toList ++ ['"'])).getLast? ≠ some ' ' := by
    rw [← List.cons_append, List.getLast?_append]
    simp
  unfold decodeValue
  rw [if_neg hne, hcs, Text.dropSpacesRight_of_getLast? hlast]
  simp [unquote]

/-- A text of characters that mean nothing at its ends is plain. -/
theorem isPlain_of_all {text : String} (hnull : text ≠ nullText)
    (h : (text.toList.all fun c => !([' ', '\r', '\n', '"', '\'', '+'].contains c)) = true)
    (hdecrease : ¬ ['-', '-'] <+: text.toList) : IsPlain text := by
  have hchar : ∀ c ∈ [' ', '\r', '\n', '"', '\'', '+'], c ∉ text.toList := by
    intro c hbad hc
    have hgood := List.all_eq_true.1 h c hc
    rw [Bool.not_eq_true', List.contains_eq_mem, decide_eq_false_iff_not] at hgood
    exact hgood hbad
  refine ⟨hnull, ⟨hchar _ (by decide), hchar _ (by decide)⟩, ?_, ?_, ?_, ?_, hdecrease⟩
  · exact fun hfirst => hchar ' ' (by decide) (List.mem_of_head? hfirst)
  · exact fun hlast => hchar ' ' (by decide) (List.mem_of_getLast? hlast)
  · intro q middle hq hcs
    have hmem : q ∈ text.toList := hcs ▸ List.mem_cons_self ..
    rcases hq with rfl | rfl
    · exact hchar _ (by decide) hmem
    · exact hchar _ (by decide) hmem
  · exact fun hplus => hchar '+' (by decide) (hplus.subset (List.mem_cons_self ..))

end Line

/-! ## Numerals -/

namespace Numeral

/-- A decimal form is made of digits. -/
theorem isDigit_of_mem_digitsOf {fuel n : Nat} {c : Char} (h : c ∈ digitsOf 10 fuel n) :
    c.isDigit = true := by
  have hdigit : ∀ d : Fin 10, (digitChar d.val).isDigit = true := by decide
  induction fuel generalizing n with
  | zero => cases h
  | succ fuel ih =>
    unfold digitsOf at h
    split at h
    · next hlt =>
      rw [List.mem_singleton.1 h]
      exact hdigit ⟨n, hlt⟩
    · rcases List.mem_append.1 h with h | h
      · exact ih h
      · rw [List.mem_singleton.1 h]
        exact hdigit ⟨n % 10, Nat.mod_lt _ (by decide)⟩

/-- The decimal form of a number has only digits. -/
theorem isDigit_of_mem_ofNat {n : Nat} {c : Char} (h : c ∈ (ofNat n).toList) :
    c.isDigit = true := by
  rw [ofNat, String.toList_ofList] at h
  exact isDigit_of_mem_digitsOf h

/-- A decimal form is read as its number, if that is not too great. -/
theorem natural?_ofNat {n greatest : Nat} (hle : n ≤ greatest) :
    natural? 10 greatest (ofNat n).toList = some n := by
  have hdigits := digits?_ofNat n
  unfold natural?
  dsimp only
  -- No digit is a sign, so no sign is taken off.
  split
  · next rest hcs =>
    have hplus := isDigit_of_mem_ofNat (hcs ▸ List.mem_cons_self ..)
    exact absurd hplus (by decide)
  · rw [hdigits]
    simp [Option.filter, hle]

/-- A decimal form starts with at most one minus sign. -/
theorem ofInt_cases (n : Int) :
    ∃ m : Nat, (ofInt n).toList = (ofNat m).toList ∨
      (ofInt n).toList = '-' :: (ofNat m).toList := by
  cases n with
  | ofNat m => exact ⟨m, .inl rfl⟩
  | negSucc m => exact ⟨m + 1, .inr (by simp [ofInt])⟩

/-- A decimal form is plain. -/
theorem isPlain_ofInt (n : Int) : Line.IsPlain (ofInt n) := by
  obtain ⟨m, hm⟩ := ofInt_cases n
  have hdigit : ∀ c ∈ (ofNat m).toList, c.isDigit = true := fun c => isDigit_of_mem_ofNat
  have hchar : ∀ c ∈ (ofInt n).toList, c = '-' ∨ c.isDigit = true := by
    intro c hc
    rcases hm with hm | hm
    · exact .inr (hdigit c (hm ▸ hc))
    · rw [hm] at hc
      exact (List.mem_cons.1 hc).imp_right (hdigit c)
  refine Line.isPlain_of_all ?_ (List.all_eq_true.2 ?_) ?_
  · intro hnull
    have hn : 'n' ∈ (ofInt n).toList := by
      rw [hnull]
      decide
    exact absurd (hchar 'n' hn) (by decide)
  · intro c hc
    rw [Bool.not_eq_true', List.contains_eq_mem, decide_eq_false_iff_not]
    intro hbad
    simp only [List.mem_cons, List.not_mem_nil, or_false] at hbad
    rcases hbad with rfl | rfl | rfl | rfl | rfl | rfl <;> exact absurd (hchar _ hc) (by decide)
  · rintro ⟨rest, hrest⟩
    rcases hm with hm | hm
    · have hminus := hdigit '-' (by rw [← hm, ← hrest]; exact List.mem_cons_self ..)
      exact absurd hminus (by decide)
    · rw [hm] at hrest
      have hminus := hdigit '-' (by rw [← (List.cons.inj hrest).2]; exact List.mem_cons_self ..)
      exact absurd hminus (by decide)

/-- The decimal form of a number is read back as it is. -/
theorem isPlain_ofNat (n : Nat) : Line.IsPlain (ofNat n) :=
  isPlain_ofInt n

end Numeral

/-- The number of a version line is read as that version. -/
theorem Line.version?_ofNat {n : Nat} (hpos : 1 ≤ n) (hle : n ≤ Numeral.word32Greatest) :
    Line.version? (some (Numeral.ofNat n)) = some n := by
  have hdigit : ∀ c ∈ (Numeral.ofNat n).toList, c.isDigit = true := fun c =>
    Numeral.isDigit_of_mem_ofNat
  have hblank : ∀ c : Char, c.isDigit = true → Text.isBlank c = false := by
    intro c hc
    unfold Char.isDigit at hc
    unfold Text.isBlank
    simp only [Bool.and_eq_true, decide_eq_true_eq] at hc
    have hlow : 48 ≤ c.toNat := hc.1
    have hhigh : c.toNat ≤ 57 := hc.2
    simp
    omega
  have hdrop : Text.dropBlanks (Numeral.ofNat n).toList = (Numeral.ofNat n).toList := by
    unfold Text.dropBlanks
    cases hcs : (Numeral.ofNat n).toList with
    | nil => rfl
    | cons c cs =>
      have hc := hblank c (hdigit c (hcs ▸ List.mem_cons_self ..))
      rw [List.dropWhile_cons_of_neg (by rw [hc]; exact Bool.false_ne_true)]
  have hread := Numeral.natural?_ofNat hle
  simp [Line.version?, hdrop, hread, Option.filter, hpos]

/-- A plain text stands for the value itself. -/
theorem Line.IsPlain.ofText_step {text : String} (h : Line.IsPlain text) :
    Step.ofText text = .direct :=
  Step.ofText_of_no_sign fun hsign => hsign.elim h.noIncrease h.noDecrease

/-! ## Values -/

/-- A value is found at the position at which a list holds it first. -/
theorem exists_idxOf?_eq {α : Type} [BEq α] [LawfulBEq α] {a : α} {as : List α} (h : a ∈ as) :
    ∃ i, as.idxOf? a = some i ∧ as[i]? = some a := by
  cases hi : as.idxOf? a with
  | none => exact absurd h (List.idxOf?_eq_none_iff.1 hi)
  | some i =>
    obtain ⟨hlt, heq, _⟩ := List.idxOf?_eq_some_iff.1 hi
    exact ⟨i, rfl, List.getElem?_eq_some_iff.2 ⟨hlt, heq⟩⟩

namespace Domain

/-- A domain whose bounds are numbers of 64 bits; the lower one is zero for colors. -/
def HasUsualBounds : Domain → Prop
  | .integer lo hi => Numeral.int64Least ≤ lo ∧ hi ≤ Numeral.int64Greatest
  | .color lo _ => lo = 0
  | _ => True

/-- A value that a line can hold: a string without line breaks, or one whose canonical text is
plain. -/
def CanWrite (d : Domain) : Value → Prop
  | .string text => Text.OneLine text.toList
  | .color id => Line.IsPlain (d.format (.color id))
  | .enum index => Line.IsPlain (d.format (.enum index))
  | .boolean _ | .integer _ => True

/-- The text in a file is plain, or a string between quotes. -/
theorem formatForFile_cases {d : Domain} {v : Value} (h : d.CanWrite v) :
    (d.formatForFile v = d.format v ∧ Line.IsPlain (d.format v)) ∨
      ∃ text, v = .string text ∧ Text.OneLine text.toList ∧
        d.formatForFile v = "\"" ++ text ++ "\"" := by
  cases v with
  | boolean flag =>
    refine .inl ⟨rfl, ?_⟩
    cases flag with
    | false =>
      show Line.IsPlain "off"
      exact Line.isPlain_of_all (by decide) (by decide) (by decide)
    | true =>
      show Line.IsPlain "on"
      exact Line.isPlain_of_all (by decide) (by decide) (by decide)
  | integer n => exact .inl ⟨rfl, Numeral.isPlain_ofInt n⟩
  | string text => exact .inr ⟨text, rfl, h, rfl⟩
  | color id => exact .inl ⟨rfl, h⟩
  | enum index => exact .inl ⟨rfl, h⟩

/-- What the text in a file stands for is the canonical text. -/
theorem decodeValue_formatForFile {d : Domain} {v : Value} (h : d.CanWrite v) :
    Line.decodeValue (d.formatForFile v) = some (d.format v) := by
  rcases formatForFile_cases h with ⟨htext, hplain⟩ | ⟨text, rfl, _, htext⟩
  · rw [htext, hplain.decodeValue]
  · rw [htext, Line.decodeValue_quoted]
    rfl

/-- The text in a file fits behind a name. -/
theorem oneLine_formatForFile {d : Domain} {v : Value} (h : d.CanWrite v) :
    Text.OneLine (d.formatForFile v).toList ∧ (d.formatForFile v).toList.head? ≠ some ' ' := by
  rcases formatForFile_cases h with ⟨htext, hplain⟩ | ⟨text, rfl, hline, htext⟩
  · rw [htext]
    exact ⟨hplain.oneLine, hplain.head⟩
  · rw [htext]
    constructor
    · simpa [Text.OneLine] using hline
    · simp

/-- The decimal form of a number within the bounds asks for that number. -/
theorem acceptInteger?_ofInt {lo hi n : Int} (hlo : Numeral.int64Least ≤ lo)
    (hhi : hi ≤ Numeral.int64Greatest) (hn : lo ≤ n ∧ n ≤ hi) (current : Option Value) :
    acceptInteger? lo hi current (Numeral.ofInt n) = some n := by
  have hread : Numeral.int64? (Numeral.ofInt n) = some n :=
    Numeral.integer?_ofInt (by omega) (by omega)
  unfold acceptInteger?
  rw [(Numeral.isPlain_ofInt n).ofText_step, hread]
  simp only [Option.map_some, clamp_of_mem_range hn.1 hn.2]

/-- The plain name of a color asks for the first color of that name. -/
theorem exists_acceptColor?_eq {palette : Palette} {id : Int} {text : String}
    (hname : palette.name? id = some text) (hplain : Line.IsPlain text) (current : Option Value) :
    ∃ i, acceptColor? 0 palette current text = some i ∧ palette.name? i = some text := by
  have hmem : text ∈ palette.names := by
    unfold Palette.name? at hname
    split at hname
    · exact List.mem_of_getElem? hname
    · cases hname
  obtain ⟨i, hi, htext⟩ := exists_idxOf?_eq hmem
  have hsize : i < palette.size := lt_length_of_idxOf? hi
  refine ⟨i, ?_, ?_⟩
  · unfold acceptColor?
    rw [hplain.ofText_step]
    simp only [Palette.assign?, hi, Option.filter_some]
    rw [if_pos (by simp; omega)]
  · unfold Palette.name?
    rw [if_pos (Int.natCast_nonneg i), Int.toNat_natCast, htext]

/-- A plain variant asks for the first position at which it stands. -/
theorem exists_acceptEnum?_eq {variants : List String} {text : String} (hmem : text ∈ variants)
    (hplain : Line.IsPlain text) (current : Option Value) :
    ∃ i, acceptEnum? variants current text = some i ∧ variants[i]? = some text := by
  obtain ⟨i, hi, htext⟩ := exists_idxOf?_eq hmem
  have hlt : i < variants.length := lt_length_of_idxOf? hi
  have hsize : variants.length ≠ 0 := by omega
  refine ⟨i, ?_, htext⟩
  unfold acceptEnum?
  rw [hplain.ofText_step]
  simp only [if_neg hsize, hi]

/-- A change to the canonical text of a value of the domain is accepted, whatever the current value
is, and leads to a value of the same text. -/
theorem accept?_format {d : Domain} (hvalid : d.Valid) (hbounds : d.HasUsualBounds) {v : Value}
    (hholds : d.Holds v) (hwrite : d.CanWrite v) (current : Option Value) :
    ∃ v', d.accept? current (d.format v) = some v' ∧ d.format v' = d.format v := by
  cases d with
  | boolean =>
    cases v <;> try contradiction
    next flag =>
      refine ⟨.boolean flag, ?_, rfl⟩
      cases flag <;> rfl
  | integer lo hi =>
    cases v <;> try contradiction
    next n =>
      have haccept := acceptInteger?_ofInt hbounds.1 hbounds.2 hholds current
      exact ⟨.integer n, congrArg (Option.map Value.integer) haccept, rfl⟩
  | string lo hi =>
    cases v <;> try contradiction
    next text => exact ⟨.string text, rfl, rfl⟩
  | color lo palette =>
    cases v <;> try contradiction
    next id =>
      -- A valid domain has a color, so the id is one of the palette and has a name.
      obtain rfl : lo = 0 := hbounds
      have hsize : (0 : Int) ≤ palette.size - 1 := hvalid
      obtain ⟨hpos, hlt⟩ : 0 ≤ id ∧ (id < palette.size ∨ id = 0) := hholds
      have hindex : id.toNat < palette.names.length := by
        unfold Palette.size at hsize hlt
        omega
      have hname : palette.name? id = some palette.names[id.toNat] := by
        simp [Palette.name?, hpos, hindex]
      have htext : (Domain.color 0 palette).format (.color id) = palette.names[id.toNat] := by
        simp [format, Domain.palette, hname]
      have hplain : Line.IsPlain ((Domain.color 0 palette).format (.color id)) := hwrite
      rw [htext] at hplain ⊢
      obtain ⟨i, haccept, hsame⟩ := exists_acceptColor?_eq hname hplain current
      refine ⟨.color i, congrArg (Option.map Value.color) haccept, ?_⟩
      simp [format, Domain.palette, hsame]
  | enum variants =>
    cases v <;> try contradiction
    next index =>
      -- A variant that is listed twice is found at its first position, where the text is the same.
      have hindex : index < variants.length := hholds
      have htext : (Domain.enum variants).format (.enum index) = variants[index] := by
        simp [format, Domain.variants, hindex]
      have hplain : Line.IsPlain ((Domain.enum variants).format (.enum index)) := hwrite
      rw [htext] at hplain ⊢
      obtain ⟨i, haccept, hsame⟩ :=
        exists_acceptEnum?_eq (List.getElem_mem hindex) hplain current
      refine ⟨.enum i, congrArg (Option.map Value.enum) haccept, ?_⟩
      simp [format, Domain.variants, hsame]

end Domain

end TypedConfig
