import TypedConfig.Text.Numeral

/-!
# Palettes

The colors that an option may take: a list of names, where a color's id is its position. A color
is chosen by its name or by the numeral of its id, and an offset moves through the list as through
a ring.
-/

namespace TypedConfig

/-- The names of the colors, in the order of their ids. -/
structure Palette where
  names : List String
  deriving Repr, DecidableEq, Inhabited

namespace Palette

/-- The seventeen terminal colors that are there unless a host brings its own. -/
def basic : Palette where
  names := ["default", "black", "darkgray", "red", "lightred", "green", "lightgreen", "brown",
    "yellow", "blue", "lightblue", "magenta", "lightmagenta", "cyan", "lightcyan", "gray", "white"]

/-- How many colors there are. -/
def size (p : Palette) : Nat :=
  p.names.length

/-- The id that a text chooses: of the first color of that name, or else the number that the text
is a numeral of, where that is an id. -/
def assign? (p : Palette) (text : String) : Option Int :=
  match p.names.idxOf? text with
  | some i => some i
  | none => (Numeral.int32? text).filter fun n => 0 ≤ n && n < p.size

/-- The name of a color. -/
def name? (p : Palette) (color : Int) : Option String :=
  if 0 ≤ color then p.names[color.toNat]? else none

/-- Addition in 64 bits with a sign, which goes on at the least number after the greatest one. -/
def wrappingAdd (m n : Int) : Int :=
  Int.bmod (m + n) 0x10000000000000000

/-- A sum that is a number of 64 bits is exact. -/
theorem wrappingAdd_of_mem_range {m n : Int} (hleast : Numeral.int64Least ≤ m + n)
    (hgreatest : m + n ≤ Numeral.int64Greatest) : wrappingAdd m n = m + n := by
  unfold Numeral.int64Least at hleast
  unfold Numeral.int64Greatest at hgreatest
  exact Int.bmod_eq_of_le (by omega) (by omega)

/-- The color that lies `offset` places after a color, going round at the ends; an id outside the
palette counts as the first color. No color lies anywhere in an empty palette. The sum is one of 64
bits, so an offset close to the ends of these may lead elsewhere than the exact sum would. -/
def shift? (p : Palette) (color offset : Int) : Option Int :=
  if p.size = 0 then none
  else
    let start := if 0 ≤ color ∧ color < p.size then color else 0
    some (wrappingAdd start offset % p.size)

end Palette

end TypedConfig
