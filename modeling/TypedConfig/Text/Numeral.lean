/-!
# Numerals

Reading and writing whole numbers. A numeral is an optional sign and at least one ASCII digit of
the base, with nothing before, between or after them, and its number has to lie in the range that
the reader asks for; digits in any number and leading zeros are allowed. The writer gives the
decimal form without leading zeros, with a minus sign on the negative numbers only. What the writer
gives is read as the number that it was given for (`integer?_ofInt`).
-/

namespace TypedConfig.Numeral

/-- The least number of 64 bits with a sign. -/
def int64Least : Int := -9223372036854775808

/-- The greatest number of 64 bits with a sign. -/
def int64Greatest : Int := 9223372036854775807

/-- The least number of 32 bits with a sign. -/
def int32Least : Int := -2147483648

/-- The greatest number of 32 bits with a sign. -/
def int32Greatest : Int := 2147483647

/-- The greatest number of 32 bits without a sign. -/
def word32Greatest : Nat := 4294967295

/-- The value of a digit of the base. -/
def digit? (base : Nat) (c : Char) : Option Nat :=
  let v := c.toNat - '0'.toNat
  if '0'.toNat ≤ c.toNat ∧ v < base ∧ v < 10 then some v else none

/-- The number that digits stand for, after a number that was read from the digits before them. -/
def accumulate (base : Nat) : Nat → List Char → Option Nat
  | n, [] => some n
  | n, c :: cs => (digit? base c).bind fun v => accumulate base (n * base + v) cs

/-- The number of an unsigned run of digits, which has to hold one at least. -/
def digits? (base : Nat) : List Char → Option Nat
  | [] => none
  | c :: cs => accumulate base 0 (c :: cs)

/-- The number of a numeral that may start with a plus sign, if it is at most `greatest`. -/
def natural? (base greatest : Nat) (cs : List Char) : Option Nat :=
  let digits := match cs with
    | '+' :: rest => rest
    | _ => cs
  (digits? base digits).filter (· ≤ greatest)

/-- The number of a decimal numeral that may start with a plus or minus sign, if it lies in
`least..greatest`. -/
def integer? (least greatest : Int) (cs : List Char) : Option Int :=
  let number : Option Int := match cs with
    | '+' :: rest => (digits? 10 rest).map Int.ofNat
    | '-' :: rest => (digits? 10 rest).map fun n => -(n : Int)
    | _ => (digits? 10 cs).map Int.ofNat
  number.filter fun n => least ≤ n && n ≤ greatest

/-- The number of a numeral of 64 bits with a sign. -/
def int64? (s : String) : Option Int :=
  integer? int64Least int64Greatest s.toList

/-- The number of a numeral of 32 bits with a sign. -/
def int32? (s : String) : Option Int :=
  integer? int32Least int32Greatest s.toList

/-- The character of a decimal digit. -/
def digitChar (n : Nat) : Char :=
  Char.ofNat ('0'.toNat + n)

/-- The digits of a number in a base of at most ten, the highest first and without leading
zeros. `fuel` bounds their count. -/
def digitsOf (base : Nat) : Nat → Nat → List Char
  | 0, _ => []
  | fuel + 1, n =>
    if n < base then [digitChar n] else digitsOf base fuel (n / base) ++ [digitChar (n % base)]

/-- The decimal form of a natural number. -/
def ofNat (n : Nat) : String :=
  String.ofList (digitsOf 10 (n + 1) n)

/-- The octal form of a natural number. -/
def octal (n : Nat) : String :=
  String.ofList (digitsOf 8 (n + 1) n)

/-- The decimal form of an integer. -/
def ofInt : Int → String
  | .ofNat n => ofNat n
  | .negSucc n => "-" ++ ofNat (n + 1)

/-! ### Reading what was written -/

/-- The character of a digit is read as that digit. -/
theorem digit?_digitChar {base d : Nat} (hd : d < base) (hbase : base ≤ 10) :
    digit? base (digitChar d) = some d := by
  have hd10 : d < 10 := by omega
  have hn : (digitChar d).toNat = 48 + d := by
    have : ∀ d : Fin 10, (digitChar d.val).toNat = 48 + d.val := by decide
    exact this ⟨d, hd10⟩
  have h0 : '0'.toNat = 48 := rfl
  simp only [digit?, hn, h0]
  rw [if_pos (by omega)]
  congr 1
  omega

/-- A run of digits is read piece by piece. -/
theorem accumulate_append (base n : Nat) (xs ys : List Char) :
    accumulate base n (xs ++ ys) = (accumulate base n xs).bind fun m => accumulate base m ys := by
  induction xs generalizing n with
  | nil => rfl
  | cons c xs ih =>
    simp only [List.cons_append, accumulate]
    cases digit? base c with
    | none => rfl
    | some v => exact ih _

/-- The digits of a number are read as that number. -/
theorem accumulate_digitsOf {base fuel n : Nat} (h2 : 2 ≤ base) (h10 : base ≤ 10)
    (hn : n < fuel) : accumulate base 0 (digitsOf base fuel n) = some n := by
  induction fuel generalizing n with
  | zero => omega
  | succ fuel ih =>
    simp only [digitsOf]
    split
    · next hlt => simp [accumulate, digit?_digitChar hlt h10]
    · next hge =>
      have hdiv : n / base < fuel := by
        have : n / base < n := Nat.div_lt_self (by omega) (by omega)
        omega
      have hmod : n % base < base := Nat.mod_lt _ (by omega)
      rw [accumulate_append, ih hdiv]
      simp [accumulate, digit?_digitChar hmod h10, Nat.div_add_mod']

/-- A number has digits. -/
theorem digitsOf_ne_nil (base fuel n : Nat) : digitsOf base (fuel + 1) n ≠ [] := by
  simp only [digitsOf]
  split <;> simp

/-- The decimal form of a natural number is read as that number. -/
theorem digits?_ofNat (n : Nat) : digits? 10 (ofNat n).toList = some n := by
  have h := accumulate_digitsOf (by omega : 2 ≤ 10) (by omega) (by omega : n < n + 1)
  simp only [ofNat, String.toList_ofList]
  cases hd : digitsOf 10 (n + 1) n with
  | nil => exact absurd hd (digitsOf_ne_nil 10 n n)
  | cons c cs => rw [hd] at h; exact h

/-- What is read as a run of digits starts with no sign. -/
theorem digits?_eq_none_of_sign {base : Nat} {c : Char} (h : c = '+' ∨ c = '-')
    (cs : List Char) : digits? base (c :: cs) = none := by
  rcases h with rfl | rfl <;> simp [digits?, accumulate, digit?]

/-- A number of the range passes the test for it. -/
theorem filter_of_mem_range {least greatest n : Int} (hl : least ≤ n) (hg : n ≤ greatest) :
    (some n).filter (fun m => least ≤ m && m ≤ greatest) = some n := by
  simp [Option.filter, hl, hg]

/-- The decimal form of an integer is read as that integer, if it lies in the range. -/
theorem integer?_ofInt {least greatest n : Int} (hl : least ≤ n) (hg : n ≤ greatest) :
    integer? least greatest (ofInt n).toList = some n := by
  cases n with
  | ofNat n =>
    have h := digits?_ofNat n
    simp only [ofInt, integer?]
    split
    · next rest hr => rw [hr, digits?_eq_none_of_sign (.inl rfl)] at h; simp at h
    · next rest hr => rw [hr, digits?_eq_none_of_sign (.inr rfl)] at h; simp at h
    · rw [h]
      exact filter_of_mem_range hl hg
  | negSucc n =>
    have h := digits?_ofNat (n + 1)
    have ht : (ofInt (.negSucc n)).toList = '-' :: (ofNat (n + 1)).toList := by
      simp [ofInt]
    rw [ht]
    simp only [integer?, h]
    exact filter_of_mem_range hl hg

/-! ### What is no numeral -/

/-- A run of digits holds nothing else. -/
theorem accumulate_eq_none_of_mem {base : Nat} {c : Char} (hc : digit? base c = none) (n : Nat)
    {cs : List Char} (h : c ∈ cs) : accumulate base n cs = none := by
  induction cs generalizing n with
  | nil => cases h
  | cons d cs ih =>
    rw [accumulate]
    rcases List.mem_cons.1 h with rfl | h
    · rw [hc]
      rfl
    · cases digit? base d with
      | none => rfl
      | some v => exact ih _ h

/-- There is no space in a numeral. -/
theorem natural?_eq_none_of_space {base greatest : Nat} {cs : List Char} (h : ' ' ∈ cs) :
    natural? base greatest cs = none := by
  have hdigits {ds : List Char} (h : ' ' ∈ ds) : digits? base ds = none := by
    cases ds with
    | nil => rfl
    | cons d ds => exact accumulate_eq_none_of_mem (by simp [digit?]) 0 h
  unfold natural?
  split
  · next rest =>
    have hrest : ' ' ∈ rest := by simpa using h
    exact congrArg (Option.filter (· ≤ greatest)) (hdigits hrest)
  · exact congrArg (Option.filter (· ≤ greatest)) (hdigits h)

end TypedConfig.Numeral
