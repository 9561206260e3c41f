import TypedConfig.Toml.Scalar
import TypedConfig.Toml.Value

/-!
# Reading TOML

A reader takes a text and gives what it read and the rest of the text, or none where the text is
not of its form. `document?` reads a whole document. Loops over the text carry a bound on their
rounds, which the callers set to the text's length; arrays and inline tables may be nested in each
other to the depth `nestingLimit`, and as many keys may stand between dots.
-/

namespace TypedConfig.Toml

/-- How deep arrays and inline tables may be nested, and how many keys a dotted key may have. -/
def nestingLimit : Nat := 80

/-- A character that may not stand in a string or a comment: the controls but tab. -/
def isControl (c : Char) : Bool :=
  (c.toNat < 0x20 && c != '\t') || c.toNat == 0x7F

/-- A space or a tab. -/
def isGap (c : Char) : Bool :=
  c == ' ' || c == '\t'

/-- A text without the gap that it starts with. -/
def skipGap (cs : List Char) : List Char :=
  cs.dropWhile isGap

/-- The rest after a line's end. -/
def lineEnd? (cs : List Char) : Option (List Char) :=
  match cs with
  | '\n' :: rest => some rest
  | '\r' :: '\n' :: rest => some rest
  | _ => none

/-- The rest after a comment, if there is one, which has to be free of controls. -/
def comment? (cs : List Char) : Option (List Char) :=
  match cs with
  | '#' :: rest =>
    let rest := rest.dropWhile fun c => !isControl c
    if rest.isEmpty ∨ (lineEnd? rest).isSome then some rest else none
  | _ => some cs

/-- The rest after gaps, comments and line ends. -/
def skipLines : Nat → List Char → Option (List Char)
  | 0, cs => some cs
  | bound + 1, cs => do
    let rest ← comment? (skipGap cs)
    match lineEnd? rest with
    | some rest => skipLines bound rest
    | none => some rest

/-- The character of hexadecimal digits, so many of them, if they stand for one. -/
def hexChar? (count : Nat) (cs : List Char) : Option (Char × List Char) :=
  let digits := cs.take count
  if digits.length = count ∧ digits.all (Scalar.isDigit 16) then
    let n := Scalar.valueOf 16 digits
    if n < 0xD800 ∨ (0xE000 ≤ n ∧ n < 0x110000) then some (Char.ofNat n, cs.drop count) else none
  else none

/-- The character that an escape stands for, after its backslash. -/
def escaped? (cs : List Char) : Option (Char × List Char) :=
  match cs with
  | 'b' :: rest => some ('\x08', rest)
  | 't' :: rest => some ('\t', rest)
  | 'n' :: rest => some ('\n', rest)
  | 'f' :: rest => some ('\x0c', rest)
  | 'r' :: rest => some ('\r', rest)
  | 'e' :: rest => some ('\x1b', rest)
  | '"' :: rest => some ('"', rest)
  | '\\' :: rest => some ('\\', rest)
  | 'x' :: rest => hexChar? 2 rest
  | 'u' :: rest => hexChar? 4 rest
  | 'U' :: rest => hexChar? 8 rest
  | _ => none

/-- The rest of a string on one line, after its opening quote. Only double quotes know escapes. -/
def lineString? (quote : Char) : Nat → List Char → Option (List Char × List Char)
  | 0, _ => none
  | _, [] => none
  | bound + 1, c :: cs =>
    if c = quote then some ([], cs)
    else if c = '\\' ∧ quote = '"' then do
      let (d, rest) ← escaped? cs
      let (text, rest) ← lineString? quote bound rest
      some (d :: text, rest)
    else if isControl c then none
    else do
      let (text, rest) ← lineString? quote bound cs
      some (c :: text, rest)

/-- A text without the gaps and line ends that it starts with. -/
def skipEmptyLines : List Char → List Char
  | '\n' :: rest => skipEmptyLines rest
  | '\r' :: '\n' :: rest => skipEmptyLines rest
  | c :: rest => if isGap c then skipEmptyLines rest else c :: rest
  | [] => []

/-- The rest after a backslash at the end of a line: all gaps and line ends, of which there has to
be one. -/
def continued? (cs : List Char) : Option (List Char) :=
  (lineEnd? (skipGap cs)).map skipEmptyLines

/-- The rest of a string of several lines, after its opening quotes. It ends at three quotes, and
one or two more right before them belong to it. -/
def blockString? (quote : Char) : Nat → List Char → Option (List Char × List Char)
  | 0, _ => none
  | _, [] => none
  | bound + 1, c :: cs =>
    let quotes := ((c :: cs).takeWhile (· == quote)).length
    if 3 ≤ quotes then
      if quotes ≤ 5 then some (List.replicate (quotes - 3) quote, (c :: cs).drop quotes) else none
    else if c = '\\' ∧ quote = '"' then
      match continued? cs with
      | some rest => blockString? quote bound rest
      | none => do
        let (d, rest) ← escaped? cs
        let (text, rest) ← blockString? quote bound rest
        some (d :: text, rest)
    else if isControl c ∧ (lineEnd? (c :: cs)).isNone then none
    else do
      let (text, rest) ← blockString? quote bound cs
      some (c :: text, rest)

/-- A string of any sort, with its quotes. -/
def string? (cs : List Char) : Option (List Char × List Char) :=
  let block (quote : Char) (rest : List Char) :=
    let rest := (lineEnd? rest).getD rest
    blockString? quote (rest.length + 1) rest
  match cs with
  | '"' :: '"' :: '"' :: rest => block '"' rest
  | '\'' :: '\'' :: '\'' :: rest => block '\'' rest
  | '"' :: rest => lineString? '"' (rest.length + 1) rest
  | '\'' :: rest => lineString? '\'' (rest.length + 1) rest
  | _ => none

/-- A character of a key without quotes. -/
def isBare (c : Char) : Bool :=
  c.isAlphanum || c == '_' || c == '-'

/-- One key. -/
def simpleKey? (cs : List Char) : Option (String × List Char) :=
  match cs with
  | '"' :: rest =>
    (lineString? '"' (rest.length + 1) rest).map fun p => (String.ofList p.1, p.2)
  | '\'' :: rest =>
    (lineString? '\'' (rest.length + 1) rest).map fun p => (String.ofList p.1, p.2)
  | _ =>
    let key := cs.takeWhile isBare
    if key.isEmpty then none else some (String.ofList key, cs.dropWhile isBare)

/-- Keys between dots, with the gap after the last one. -/
def keys? : Nat → List Char → Option (List String × List Char)
  | 0, _ => none
  | bound + 1, cs => do
    let (key, rest) ← simpleKey? (skipGap cs)
    match skipGap rest with
    | '.' :: rest =>
      let (path, rest) ← keys? bound rest
      some (key :: path, rest)
    | rest => some ([key], rest)

/-- Keys between dots, the last one apart. -/
def path? (cs : List Char) : Option ((List String × String) × List Char) := do
  let (path, rest) ← keys? (cs.length + 1) cs
  let key ← path.getLast?
  if path.length ≤ nestingLimit then some ((path.dropLast, key), rest) else none

/-- Where a word of a value ends. -/
def endsWord (c : Char) : Bool :=
  isGap c || c == '\n' || c == '\r' || c == ',' || c == ']' || c == '}' || c == '#'

/-- A value that is a word: a truth value, a number, a date or a time. A date may go on with a time
after a single space. -/
def word? (cs : List Char) : Option (Value × List Char) :=
  let word := cs.takeWhile fun c => !endsWord c
  let rest := cs.dropWhile fun c => !endsWord c
  if word = ['t', 'r', 'u', 'e'] then some (.boolean true, rest)
  else if word = ['f', 'a', 'l', 's', 'e'] then some (.boolean false, rest)
  else
    let time := rest.drop 1
    if Scalar.isDate word ∧ rest.head? = some ' ' ∧ (time.head?.map Char.isDigit).getD false then
      let both := word ++ ' ' :: time.takeWhile fun c => !endsWord c
      if Scalar.isScalar both then some (.scalar, time.dropWhile fun c => !endsWord c) else none
    else if Scalar.isScalar word then some (.scalar, rest)
    else none

/-- The rest of an array after its opening bracket, given a reader of its elements. -/
def elements? (element? : List Char → Option (Value × List Char)) :
    Nat → List Char → Option (List Value × List Char)
  | 0, _ => none
  | bound + 1, cs => do
    let rest ← skipLines (bound + 1) cs
    match rest with
    | ']' :: rest => some ([], rest)
    | rest =>
      let (value, rest) ← element? rest
      let rest ← skipLines (bound + 1) rest
      match rest with
      | ',' :: rest =>
        let (values, rest) ← elements? element? bound rest
        some (value :: values, rest)
      | ']' :: rest => some ([value], rest)
      | _ => none

/-- The rest of an inline table after its opening brace, given a reader of its values and the table
so far. -/
def pairs? (value? : List Char → Option (Value × List Char)) :
    Nat → Value → List Char → Option (Value × List Char)
  | 0, _, _ => none
  | bound + 1, table, cs => do
    let rest ← skipLines (bound + 1) cs
    match rest with
    | '}' :: rest => some (table, rest)
    | rest =>
      let ((path, key), rest) ← path? rest
      let rest ← skipLines (bound + 1) rest
      match rest with
      | '=' :: rest =>
        let rest ← skipLines (bound + 1) rest
        let (value, rest) ← value? rest
        let table ← Value.addKey path key value table
        let rest ← skipLines (bound + 1) rest
        match rest with
        | ',' :: rest => pairs? value? bound table rest
        | '}' :: rest => some (table, rest)
        | _ => none
      | _ => none

/-- A value, in which arrays and inline tables are nested to a depth. -/
def value? : Nat → List Char → Option (Value × List Char)
  | depth, cs =>
    match cs with
    | '[' :: rest =>
      match depth with
      | 0 => none
      | depth + 1 => do
        let (values, rest) ← elements? (value? depth) (rest.length + 1) rest
        some (.array false values, rest)
    | '{' :: rest =>
      match depth with
      | 0 => none
      | depth + 1 => do
        let (table, rest) ← pairs? (value? depth) (rest.length + 1) (.table .header []) rest
        match table with
        | .table _ entries => some (.table .closed entries, rest)
        | _ => none
    | '"' :: _ | '\'' :: _ => (string? cs).map fun p => (.string (String.ofList p.1), p.2)
    | _ => word? cs

/-- The end of an expression: a gap, a comment, and the line's end or the text's. -/
def lineRest? (cs : List Char) : Option (List Char) := do
  let rest ← comment? (skipGap cs)
  if rest.isEmpty then some [] else lineEnd? rest

/-- The expressions of a document, given the path of the last header and the document so far. -/
def expressions? : Nat → List String → Value → List Char → Option Value
  | 0, _, root, _ => some root
  | bound + 1, current, root, cs =>
    match skipGap cs with
    | [] => some root
    | '[' :: '[' :: rest => do
      let ((path, key), rest) ← path? rest
      match rest with
      | ']' :: ']' :: rest =>
        let root ← Value.addElement path key root
        let rest ← lineRest? rest
        expressions? bound (path ++ [key]) root rest
      | _ => none
    | '[' :: rest => do
      let ((path, key), rest) ← path? rest
      match rest with
      | ']' :: rest =>
        let root ← Value.addHeader path key root
        let rest ← lineRest? rest
        expressions? bound (path ++ [key]) root rest
      | _ => none
    | '#' :: _ | '\n' :: _ | '\r' :: _ => do
      let rest ← lineRest? cs
      expressions? bound current root rest
    | rest => do
      let ((path, key), rest) ← path? rest
      match rest with
      | '=' :: rest =>
        let (value, rest) ← value? nestingLimit (skipGap rest)
        let root ← Value.atHeader (Value.addKey path key value) current root
        let rest ← lineRest? rest
        expressions? bound current root rest
      | _ => none

/-- The entries of a document, which may start with a byte order mark. -/
def document? (text : List Char) : Option (List (String × Value)) :=
  let text := match text with
    | '\uFEFF' :: rest => rest
    | _ => text
  match expressions? (text.length + 1) [] (.table .header []) text with
  | some (.table _ entries) => some entries
  | _ => none

end TypedConfig.Toml
