import TypedConfig.Text.Shape

/-!
# Texts quoted for a reader

The form in which a reason names a path: between double quotes, with a backslash before each double
quote and each backslash, and with escapes for the characters that have no shape of their own.
-/

namespace TypedConfig.Text

/-- A character between quotes. -/
def shown (c : Char) : List Char :=
  match c with
  | '\x00' => ['\\', '0']
  | '\t' => ['\\', 't']
  | '\n' => ['\\', 'n']
  | '\r' => ['\\', 'r']
  | '"' | '\\' => ['\\', c]
  | c =>
    if hasShape c then [c]
    else ['\\', 'u', '\x7b'] ++ Nat.toDigits 16 c.toNat ++ ['\x7d']

/-- A text between quotes. -/
def quoted (text : String) : String :=
  String.ofList ('"' :: text.toList.flatMap shown ++ ['"'])

end TypedConfig.Text
