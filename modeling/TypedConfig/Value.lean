import TypedConfig.Palette

/-!
# Values and their grammar

The five kinds of option, the values that they hold, and the texts that choose a value. A `Domain`
is what an option's kind, bounds, variants and palette say together; it has three functions:

* `convert` reads the texts of a definition and always finds a value;
* `accept?` reads the texts of a change, which may be relative to the current value, and refuses
  what the kind has no meaning for;
* `format` gives the canonical text of a value.
-/

namespace TypedConfig

/-- The kinds of option. -/
inductive Kind
  | boolean | integer | string | color | enum
  deriving Repr, DecidableEq, Inhabited

/-- The word for a kind. -/
def Kind.word : Kind → String
  | .boolean => "boolean"
  | .integer => "integer"
  | .string => "string"
  | .color => "color"
  | .enum => "enum"

/-- A value of an option: a color is an id of the palette, an enum the position of a variant. -/
inductive Value
  | boolean (flag : Bool)
  | integer (number : Int)
  | string (text : String)
  | color (id : Int)
  | enum (index : Nat)
  deriving Repr, DecidableEq, Inhabited

/-- The kind of option that holds a value. -/
def Value.kind : Value → Kind
  | .boolean _ => .boolean
  | .integer _ => .integer
  | .string _ => .string
  | .color _ => .color
  | .enum _ => .enum

/-- The text of a null value, in files and in messages. -/
def nullText : String := "null"

/-- The words for true, compared exactly. -/
def trueWords : List String := ["on", "yes", "y", "true", "t", "1"]

/-- The words for false, compared exactly. -/
def falseWords : List String := ["off", "no", "n", "false", "f", "0"]

/-- The word that flips a boolean. -/
def toggleWord : String := "toggle"

/-- Whether a text is a word for true. -/
def isTrueWord (text : String) : Bool :=
  trueWords.contains text

/-- The truth value of a word for one. -/
def boolean? (text : String) : Option Bool :=
  if trueWords.contains text then some true
  else if falseWords.contains text then some false
  else none

/-- `n`, or the bound that it lies beyond. -/
def clamp (lo hi n : Int) : Int :=
  if n < lo then lo else if hi < n then hi else n

/-- A clamped number lies within the bounds. -/
theorem clamp_mem_range {lo hi : Int} (h : lo ≤ hi) (n : Int) :
    lo ≤ clamp lo hi n ∧ clamp lo hi n ≤ hi := by
  simp only [clamp]
  split
  · omega
  · split <;> omega

/-- A number within the bounds is not moved. -/
theorem clamp_of_mem_range {lo hi n : Int} (hlo : lo ≤ n) (hhi : n ≤ hi) : clamp lo hi n = n := by
  rw [clamp, if_neg (by omega), if_neg (by omega)]

/-- Addition in 64 bits with a sign, which stops at the least and the greatest number. -/
def saturatingAdd (m n : Int) : Int :=
  clamp Numeral.int64Least Numeral.int64Greatest (m + n)

/-- How a text asks for a number or a place in a list. -/
inductive Step
  /-- The text stands for the value itself. -/
  | direct
  /-- `++N` and `--N`: the value lies this far after the current one. -/
  | offset (n : Int)
  /-- `++` or `--` without a number that can be added. -/
  | malformed
  deriving Repr, DecidableEq

/-- The way in which a text asks. The number of `--N` is the negation of `N`, which has to be a
number of 64 bits like `N` itself. -/
def Step.ofText (text : String) : Step :=
  let signed (n? : Option Int) : Step := (n?.map .offset).getD .malformed
  let number (rest : List Char) := Numeral.integer? Numeral.int64Least Numeral.int64Greatest rest
  match text.toList with
  | '+' :: '+' :: rest => signed (number rest)
  | '-' :: '-' :: rest =>
    signed (((number rest).map (- ·)).filter (· ≤ Numeral.int64Greatest))
  | _ => .direct

/-- What an option can hold. The bounds of a string say nothing about its values. -/
inductive Domain
  | boolean
  | integer (lo hi : Int)
  | string (lo hi : Int)
  | color (lo : Int) (palette : Palette)
  | enum (variants : List String)
  deriving Repr, DecidableEq, Inhabited

namespace Domain

/-- The kind of a domain. -/
def kind : Domain → Kind
  | boolean => .boolean
  | integer .. => .integer
  | string .. => .string
  | color .. => .color
  | enum .. => .enum

/-- The lower bound. -/
def lo : Domain → Int
  | boolean | enum _ => 0
  | integer lo _ | string lo _ | color lo _ => lo

/-- The upper bound; of a list, its last position. -/
def hi : Domain → Int
  | boolean => 1
  | integer _ hi | string _ hi => hi
  | color _ palette => palette.size - 1
  | enum variants => variants.length - 1

/-- The value that a text of a definition stands for. A text without a meaning for the kind gives
the neutral value: false, the number nearest to zero, the first color, the first variant. -/
def convert : Domain → String → Value
  | boolean, text => .boolean (isTrueWord text)
  | integer lo hi, text => .integer (clamp lo hi ((Numeral.int64? text).getD 0))
  | string .., text => .string text
  | color _ palette, text => .color ((palette.assign? text).getD 0)
  | enum variants, text => .enum ((variants.idxOf? text).getD 0)

/-- The boolean that a text asks for. -/
def acceptBoolean? (current : Option Value) (text : String) : Option Bool :=
  if text = toggleWord then some (current != some (.boolean true)) else boolean? text

/-- The number that a text asks for. An offset from a number stops at the bounds; an offset from
null is the number itself and has to lie within them. -/
def acceptInteger? (lo hi : Int) (current : Option Value) (text : String) : Option Int :=
  match Step.ofText text, current with
  | .malformed, _ => none
  | .offset n, some (.integer base) => some (clamp lo hi (saturatingAdd base n))
  | .offset n, _ => if n < lo ∨ hi < n then none else some (clamp lo hi n)
  | .direct, _ => (Numeral.int64? text).map (clamp lo hi)

/-- The color that a text asks for, which has to lie within the bounds; an offset goes round at the
ends of the palette. -/
def acceptColor? (lo : Int) (palette : Palette) (current : Option Value) (text : String) :
    Option Int :=
  let base := match current with
    | some (.color id) => id
    | _ => 0
  let color := match Step.ofText text with
    | .malformed => none
    | .offset n => palette.shift? base n
    | .direct => palette.assign? text
  color.filter fun c => lo ≤ c && c ≤ (palette.size : Int) - 1

/-- The position of the variant that a text asks for; an offset goes round at the ends. -/
def acceptEnum? (variants : List String) (current : Option Value) (text : String) : Option Nat :=
  let size := variants.length
  let base := match current with
    | some (.enum index) => index
    | _ => 0
  if size = 0 then none
  else match Step.ofText text with
    | .malformed => none
    | .offset n => some ((base + (n % (size : Int)).toNat) % size)
    | .direct => variants.idxOf? text

/-- The value that a change to a text leads to from the current value, or none where the text is
refused. -/
def accept? : Domain → Option Value → String → Option Value
  | boolean, current, text => (acceptBoolean? current text).map .boolean
  | integer lo hi, current, text => (acceptInteger? lo hi current text).map .integer
  | string .., _, text => some (.string text)
  | color lo palette, current, text => (acceptColor? lo palette current text).map .color
  | enum variants, current, text => (acceptEnum? variants current text).map .enum

/-- The palette of a domain of colors; no other domain has colors. -/
def palette : Domain → Palette
  | color _ palette => palette
  | _ => ⟨[]⟩

/-- The variants of a domain of variants; no other domain has any. -/
def variants : Domain → List String
  | enum variants => variants
  | _ => []

/-- The canonical text of a value. A color outside the palette shows its id, a position without a
variant nothing. -/
def format (d : Domain) : Value → String
  | .boolean true => "on"
  | .boolean false => "off"
  | .integer n => Numeral.ofInt n
  | .string text => text
  | .color id => (d.palette.name? id).getD (Numeral.ofInt id)
  | .enum index => (d.variants[index]?).getD ""

/-- The text of a value in a file: a string stands in double quotes, all else is canonical. -/
def formatForFile (d : Domain) : Value → String
  | .string text => "\"" ++ text ++ "\""
  | value => d.format value

end Domain

end TypedConfig
