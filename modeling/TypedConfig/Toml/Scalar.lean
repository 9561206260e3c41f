import TypedConfig.Text.Cut
import TypedConfig.Text.Numeral

/-!
# TOML numbers, dates and times

Whether a word of a TOML document is an integer, a float, a date or a time. The settings hold none
of them, so only their form is checked and not their value, but for the ranges of the parts of
dates and times and the size of integers and floats.
-/

namespace TypedConfig.Toml.Scalar

/-- A digit of a base up to sixteen. -/
def isDigit (base : Nat) (c : Char) : Bool :=
  let n := c.toLower.toNat
  if c.isDigit then n - '0'.toNat < base
  else base == 16 && 'a'.toNat ≤ n && n ≤ 'f'.toNat

/-- Digits in which single underscores may stand between two digits. -/
def isDigits (base : Nat) : List Char → Bool
  | [] => false
  | [c] => isDigit base c
  | c :: '_' :: rest => isDigit base c && isDigits base rest
  | c :: rest => isDigit base c && isDigits base rest

/-- A text without the sign that it may start with. -/
def unsigned (cs : List Char) : List Char :=
  match cs with
  | '+' :: rest => rest
  | '-' :: rest => rest
  | _ => cs

/-- A decimal integer, perhaps with a sign: zero, or digits that do not start with zero. -/
def isWhole (cs : List Char) : Bool :=
  match unsigned cs with
  | ['0'] => true
  | '0' :: _ => false
  | digits => isDigits 10 digits

/-- The number that digits of a base up to sixteen stand for, with the underscores between them. -/
def valueOf (base : Nat) (cs : List Char) : Nat :=
  let digit (c : Char) : Nat :=
    if c.isDigit then c.toNat - '0'.toNat else c.toLower.toNat - 'a'.toNat + 10
  (cs.filter (· != '_')).foldl (fun n c => n * base + digit c) 0

/-- An integer that fits into 128 bits. -/
def isInteger (cs : List Char) : Bool :=
  let fits (base : Nat) (digits : List Char) : Bool :=
    isDigits base digits && valueOf base digits < Nat.pow 2 128
  match cs with
  | '0' :: 'x' :: rest => fits 16 rest
  | '0' :: 'o' :: rest => fits 8 rest
  | '0' :: 'b' :: rest => fits 2 rest
  | '-' :: rest => isWhole cs && valueOf 10 rest ≤ Nat.pow 2 127
  | _ => isWhole cs && valueOf 10 (unsigned cs) < Nat.pow 2 128

/-- The number of an exponent, after its letter. -/
def exponent? (cs : List Char) : Option Int :=
  let digits := unsigned cs
  if isDigits 10 digits then
    some (if cs.head? = some '-' then -valueOf 10 digits else valueOf 10 digits)
  else none

/-- The middle between the greatest finite number of double precision and the power of two after
it. From here on, numbers are taken for infinite. -/
def floatEnd : Nat := Nat.pow 2 1024 - Nat.pow 2 970

/-- Whether the number with these digits, times a power of ten, is taken for a finite one. The
number of digits settles it but for those with 309 digits before the point. -/
def isFinite (digits : List Char) (exponent : Int) : Bool :=
  let n := valueOf 10 digits
  let size : Int := (digits.filter (· != '_')).dropWhile (· == '0') |>.length
  if n = 0 ∨ size + exponent < 309 then true
  else if 309 < size + exponent then false
  else if 0 ≤ exponent then n * Nat.pow 10 exponent.toNat < floatEnd
  else n < floatEnd * Nat.pow 10 (-exponent).toNat

/-- A finite number of an integer part, perhaps with a fraction, times a power of ten. -/
def isDecimal (mantissa : List Char) (exponent : Int) : Bool :=
  match Text.cut? ['.'] mantissa with
  | some (whole, fraction) =>
    let places := (fraction.filter (· != '_')).length
    isWhole whole && isDigits 10 fraction &&
      isFinite (unsigned whole ++ fraction) (exponent - places)
  | none => isWhole mantissa && isFinite (unsigned mantissa) exponent

/-- A float: a number with a fraction, an exponent or both, or a special value. -/
def isFloat (cs : List Char) : Bool :=
  let lower := cs.map Char.toLower
  if unsigned cs = ['i', 'n', 'f'] ∨ unsigned cs = ['n', 'a', 'n'] then true
  else match Text.cut? ['e'] lower with
    | some (mantissa, power) => (exponent? power).any (isDecimal mantissa)
    | none => lower.contains '.' && isDecimal lower 0

/-- The number of a run of exactly so many digits. -/
def fixed? (count : Nat) (cs : List Char) : Option Nat :=
  if cs.length = count ∧ cs.all Char.isDigit then some (valueOf 10 cs) else none

/-- The number of days in a month. -/
def daysIn (year month : Nat) : Nat :=
  if month = 2 then
    if (year % 4 = 0 ∧ year % 100 ≠ 0) ∨ year % 400 = 0 then 29 else 28
  else if month = 4 ∨ month = 6 ∨ month = 9 ∨ month = 11 then 30 else 31

/-- A date such as `1979-05-27`. -/
def isDate (cs : List Char) : Bool :=
  match Text.splitAt '-' cs with
  | [y, m, d] =>
    match fixed? 4 y, fixed? 2 m, fixed? 2 d with
    | some year, some month, some day =>
      1 ≤ month && month ≤ 12 && 1 ≤ day && day ≤ daysIn year month
    | _, _, _ => false
  | _ => false

/-- An hour and a minute. -/
def isClock (h m : List Char) : Bool :=
  match fixed? 2 h, fixed? 2 m with
  | some hour, some minute => hour ≤ 23 && minute ≤ 59
  | _, _ => false

/-- A second, perhaps with a fraction. -/
def isSecond (cs : List Char) : Bool :=
  let parts := match Text.cut? ['.'] cs with
    | some (whole, fraction) => (whole, !fraction.isEmpty && fraction.all Char.isDigit)
    | none => (cs, true)
  match fixed? 2 parts.1 with
  | some second => second ≤ 60 && parts.2
  | none => false

/-- A time of day such as `07:32` or `07:32:00.5`. -/
def isTime (cs : List Char) : Bool :=
  match Text.splitAt ':' cs with
  | [h, m] => isClock h m
  | [h, m, s] => isClock h m && isSecond s
  | _ => false

/-- A time of day with the offset of a zone. -/
def isZonedTime (cs : List Char) : Bool :=
  let offset (time zone : List Char) := isTime time &&
    match Text.splitAt ':' zone with
    | [h, m] => isClock h m
    | _ => false
  match cs.getLast? with
  | some 'Z' | some 'z' => isTime cs.dropLast
  | _ =>
    match Text.cut? ['+'] cs, Text.cut? ['-'] cs with
    | some (time, zone), _ => offset time zone
    | none, some (time, zone) => offset time zone
    | none, none => false

/-- A date, a time, or both with or without a zone. -/
def isMoment (cs : List Char) : Bool :=
  isTime cs || isDate cs ||
    match cs.drop 10 with
    | c :: time => (c == 'T' || c == 't' || c == ' ') && isDate (cs.take 10) &&
      (isTime time || isZonedTime time)
    | [] => false

/-- Whether a word has one of the forms. -/
def isScalar (cs : List Char) : Bool :=
  isInteger cs || isFloat cs || isMoment cs

end TypedConfig.Toml.Scalar
