import TypedConfig.Text.Numeral

/-!
# Writing TOML

A string is written in the plainest of five forms that can hold it: in double quotes if nothing in
it needs an escape, in single quotes, over several lines in triple double or triple single quotes,
and in double quotes with escapes.
-/

namespace TypedConfig.Toml

/-- A control character that only an escape can give; tabs and line feeds have other ways. -/
def needsEscape (c : Char) : Bool :=
  (c.toNat < 0x20 && c != '\t' && c != '\n') || c.toNat == 0x7F

/-- The length of the longest run of a character. -/
def longestRun (q : Char) : Nat → List Char → Nat
  | run, [] => run
  | run, c :: cs => if c == q then longestRun q (run + 1) cs else max run (longestRun q 0 cs)

/-- A hexadecimal digit in upper case. -/
def hexDigit (n : Nat) : Char :=
  if n < 10 then Char.ofNat ('0'.toNat + n) else Char.ofNat ('A'.toNat + (n - 10))

/-- A character between double quotes, where `several` says whether there are three of them. -/
def escape (several : Bool) (c : Char) : List Char :=
  match c with
  | '\x08' => ['\\', 'b']
  | '\t' => ['\\', 't']
  | '\n' => if several then ['\n'] else ['\\', 'n']
  | '\x0c' => ['\\', 'f']
  | '\r' => ['\\', 'r']
  | '\\' => ['\\', '\\']
  | c =>
    if needsEscape c then ['\\', 'u', '0', '0', hexDigit (c.toNat / 16), hexDigit (c.toNat % 16)]
    else [c]

/-- A text between double quotes, given how many quotes stand right before it and how many may stand
in a row. -/
def escapeAll (several : Bool) (allowed : Nat) : Nat → List Char → List Char
  | _, [] => []
  | run, '"' :: cs =>
    if run < allowed then '"' :: escapeAll several allowed (run + 1) cs
    else '\\' :: '"' :: escapeAll several allowed 0 cs
  | _, c :: cs => escape several c ++ escapeAll several allowed 0 cs

/-- A string in its plainest form. -/
def quoted (text : String) : String :=
  let cs := text.toList
  let codes := cs.any needsEscape
  let backslash := cs.contains '\\'
  let lines := cs.contains '\n'
  let doubles := longestRun '"' 0 cs
  let singles := longestRun '\'' 0 cs
  let opening := if lines then ['\n'] else []
  let basic := '"' :: escapeAll false 0 0 cs ++ ['"']
  let triple := ['"', '"', '"']
  let block := triple ++ opening ++ escapeAll true 2 0 cs ++ triple
  let ticks := ['\'', '\'', '\'']
  let form :=
    if !codes && !backslash && doubles == 0 && !lines then basic
    else if !codes && singles == 0 && !lines then '\'' :: cs ++ ['\'']
    else if !codes && !backslash && doubles ≤ 2 then block
    else if !codes && singles ≤ 2 then ticks ++ opening ++ cs ++ ticks
    else if lines then block
    else basic
  String.ofList form

/-- The line of a key with the text of its value. -/
def line (key value : String) : String :=
  key ++ " = " ++ value ++ "\n"

end TypedConfig.Toml
