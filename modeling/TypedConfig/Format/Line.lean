import TypedConfig.Text.Blank
import TypedConfig.Text.Cut
import TypedConfig.Text.Numeral
import TypedConfig.Value

/-!
# Lines of configuration files

A file is read and written line by line. A line is a comment, the header of a section, or an
option with its value, as in

    # comment
    [look]
    color = red
    greeting = "hello"
    \#hash = on
    nick

Leading spaces mean nothing. An option line is cut at the first space that an equals sign follows,
and without such a place it is a bare name, whose value is null. A backslash in front lets a name
start with a character that would make the line a comment, a header or an escape. Quotes around a
value are taken off, and what stands between them is kept as it is.

`Line.ofText` reads a line, `Line.optionText` and `Line.headerText` write one.
-/

namespace TypedConfig

/-- A line as it is understood. -/
inductive Line
  /-- An empty line or a comment. -/
  | skipped
  /-- The header of a section. -/
  | header (name : String)
  /-- A header without its closing bracket. -/
  | unclosedHeader
  /-- An option with the text after its equals sign, if it has one. -/
  | option (name : String) (raw : Option String)
  deriving Repr, DecidableEq

namespace Line

/-- The name that stands for the version of a file while no section is open. -/
def versionName : String := "config_version"

/-- What stands between a name and its value. -/
def mark : List Char := [' ', '=']

/-- The part of a line that is looked at: neither leading spaces nor anything from the first
carriage return or line feed on. -/
def content (text : List Char) : List Char :=
  (Text.dropSpaces text).takeWhile fun c => c != '\r' && c != '\n'

/-- The text of an option line without the escape at its start. -/
def unescaped (line : List Char) : List Char :=
  match line with
  | '\\' :: rest => rest
  | _ => line

/-- A line of an option, read. -/
def ofOptionText (line : List Char) : Line :=
  match Text.cut? mark (unescaped line) with
  | some (name, raw) =>
    .option (String.ofList (Text.dropSpacesRight name)) (some (String.ofList (Text.dropSpaces raw)))
  | none => .option (String.ofList (unescaped line)) none

/-- A line's content, read. What starts with a bracket is a header unless it holds an equals
sign. -/
def ofContent (line : List Char) : Line :=
  match line with
  | [] => .skipped
  | '#' :: _ => .skipped
  | '[' :: rest =>
    if rest.contains '=' then ofOptionText line
    else match Text.cut? [']'] rest with
      | some (name, _) => .header (String.ofList name)
      | none => .unclosedHeader
  | _ => ofOptionText line

/-- A line, read. -/
def ofText (text : List Char) : Line :=
  ofContent (content text)

/-- A text without the quotes that it starts and ends with, if they are of one sort. -/
def unquote (text : List Char) : List Char :=
  match text with
  | [] => []
  | q :: rest =>
    if (q = '"' ∨ q = '\'') ∧ rest.getLast? = some q then rest.dropLast else text

/-- The value that the text after an equals sign stands for: exactly `null` is null, and otherwise
trailing spaces and quotes are taken off. -/
def decodeValue (raw : String) : Option String :=
  if raw = nullText then none
  else some (String.ofList (unquote (Text.dropSpacesRight raw.toList)))

/-- The value of an option line; a bare name has none. -/
def value (raw : Option String) : Option String :=
  raw.bind decodeValue

/-- The version that a version line names: a number from one up, after any blanks. -/
def version? (raw : Option String) : Option Nat := do
  let text ← raw
  let digits := Text.dropBlanks text.toList
  (Numeral.natural? 10 Numeral.word32Greatest digits).filter (1 ≤ ·)

/-- What has to stand before a name at the start of a line. -/
def escape (name : String) : String :=
  match name.toList with
  | '#' :: _ => "\\"
  | '[' :: _ => "\\"
  | '\\' :: _ => "\\"
  | _ => ""

/-- The line of an option, with its line feed. -/
def optionText (name : String) (value : Option String) : String :=
  escape name ++ name ++
    (match value with
      | some text => " = " ++ text
      | none => "") ++ "\n"

/-- The header of a section, with an empty line before it. -/
def headerText (name : String) : String :=
  "\n[" ++ name ++ "]\n"

end Line

end TypedConfig
