/-!
# Bytes and text

Files hold bytes. A text is written as its UTF-8 encoding. Reading never fails: every longest run
of bytes that starts a character without finishing it, and every byte that starts none, is read as
one replacement character.

A text is read back from its bytes (`decode_encode`), so the encodings of texts are the bytes that
`decode?` accepts (`decode?_eq_some_iff`). Any bytes may be read in two parts if the second one
begins with a byte of ASCII (`decode_append_cons`). Texts are in the order of their bytes
(`encode_lt_encode_iff`).
-/

namespace TypedConfig.Utf8

/-- The bytes of a text. -/
def encode (cs : List Char) : List UInt8 :=
  cs.flatMap String.utf8EncodeChar

/-- The character that stands for bytes that are not UTF-8. -/
def replacement : Char := '\uFFFD'

/-- A character that has begun: the bits read so far, how many bytes it still needs besides the
next one, and the range in which the next one has to lie. -/
structure Pending where
  bits : Nat
  after : Nat
  low : Nat
  high : Nat

/-- What a byte does where a character may start: it is a character, it begins one, or it can do
neither. -/
def start (b : UInt8) : List Char × Option Pending :=
  let n := b.toNat
  if n ≤ 0x7F then ([Char.ofNat n], none)
  else if 0xC2 ≤ n ∧ n ≤ 0xDF then ([], some ⟨n - 0xC0, 0, 0x80, 0xBF⟩)
  else if 0xE0 ≤ n ∧ n ≤ 0xEF then
    ([], some ⟨n - 0xE0, 1, if n = 0xE0 then 0xA0 else 0x80, if n = 0xED then 0x9F else 0xBF⟩)
  else if 0xF0 ≤ n ∧ n ≤ 0xF4 then
    ([], some ⟨n - 0xF0, 2, if n = 0xF0 then 0x90 else 0x80, if n = 0xF4 then 0x8F else 0xBF⟩)
  else ([replacement], none)

/-- What a byte does after a character has begun. One that cannot go on with it ends it as a
replacement character and is then read as a first byte. -/
def Pending.next (p : Pending) (b : UInt8) : List Char × Option Pending :=
  let n := b.toNat
  if p.low ≤ n ∧ n ≤ p.high then
    let bits := p.bits * 64 + (n - 0x80)
    match p.after with
    | 0 => ([Char.ofNat bits], none)
    | after + 1 => ([], some ⟨bits, after, 0x80, 0xBF⟩)
  else
    let s := start b
    (replacement :: s.1, s.2)

/-- The text of bytes that follow a character that may have begun. -/
def decodeFrom : Option Pending → List UInt8 → List Char
  | none, [] => []
  | some _, [] => [replacement]
  | none, b :: bs => (start b).1 ++ decodeFrom (start b).2 bs
  | some p, b :: bs => (p.next b).1 ++ decodeFrom (p.next b).2 bs

/-- The text of bytes, with replacement characters where they are not UTF-8. -/
def decode (bytes : List UInt8) : List Char :=
  decodeFrom none bytes

/-- The text of bytes that are UTF-8. The encoding of a text is UTF-8, so bytes that decoding and
encoding give back are, and no others. -/
def decode? (bytes : List UInt8) : Option (List Char) :=
  let text := decode bytes
  if encode text = bytes then some text else none

/-! ### Reading what was written -/

/-- A number below 256 is the number of its byte. -/
theorem toNat_ofNat_of_lt {n : Nat} (h : n < 256) : (UInt8.ofNat n).toNat = n := by
  simp; omega

/-- The last byte of a character finishes it. -/
theorem Pending.next_last {bits low high : Nat} {b : UInt8}
    (h : low ≤ b.toNat ∧ b.toNat ≤ high) :
    Pending.next ⟨bits, 0, low, high⟩ b = ([Char.ofNat (bits * 64 + (b.toNat - 0x80))], none) := by
  simp [Pending.next, h]

/-- A byte before the last one of a character goes on with it. -/
theorem Pending.next_inner {bits after low high : Nat} {b : UInt8}
    (h : low ≤ b.toNat ∧ b.toNat ≤ high) :
    Pending.next ⟨bits, after + 1, low, high⟩ b =
      ([], some ⟨bits * 64 + (b.toNat - 0x80), after, 0x80, 0xBF⟩) := by
  simp [Pending.next, h]

/-- The first byte of a character of two bytes asks for one more. -/
theorem start_of_two {v : Nat} (hlo : 0x7F < v) (hhi : v ≤ 0x7FF) :
    start (UInt8.ofNat (v / 64 % 32 + 192)) = ([], some ⟨v / 64, 0, 0x80, 0xBF⟩) := by
  have first : (UInt8.ofNat (v / 64 % 32 + 192)).toNat = v / 64 + 192 := by
    rw [toNat_ofNat_of_lt] <;> omega
  simp only [start, first]
  rw [if_neg (by omega), if_pos (by omega), Nat.add_sub_cancel]

/-- The first byte of a character of three bytes asks for two more, and the second one lies within
what the first allows: that leaves out only what two bytes could say, and the surrogates. -/
theorem exists_start_of_three {v : Nat} (hlo : 0x7FF < v) (hhi : v ≤ 0xFFFF)
    (hv : v < 0xD800 ∨ 0xDFFF < v) :
    ∃ low high, start (UInt8.ofNat (v / 4096 % 16 + 224)) =
      ([], some ⟨v / 4096, 1, low, high⟩) ∧ low ≤ v / 64 % 64 + 128 ∧
        v / 64 % 64 + 128 ≤ high := by
  have first : (UInt8.ofNat (v / 4096 % 16 + 224)).toNat = v / 4096 + 224 := by
    rw [toNat_ofNat_of_lt] <;> omega
  refine ⟨if v / 4096 + 224 = 0xE0 then 0xA0 else 0x80,
    if v / 4096 + 224 = 0xED then 0x9F else 0xBF, ?_, ?_, ?_⟩
  · simp only [start, first]
    rw [if_neg (by omega), if_neg (by omega), if_pos (by omega), Nat.add_sub_cancel]
  · split <;> omega
  · split <;> omega

/-- The first byte of a character of four bytes asks for three more, and the second one lies within
what the first allows: that leaves out only what three bytes could say, and what is no character. -/
theorem exists_start_of_four {v : Nat} (hlo : 0xFFFF < v) (hhi : v < 0x110000) :
    ∃ low high, start (UInt8.ofNat (v / 262144 % 8 + 240)) =
      ([], some ⟨v / 262144, 2, low, high⟩) ∧ low ≤ v / 4096 % 64 + 128 ∧
        v / 4096 % 64 + 128 ≤ high := by
  have first : (UInt8.ofNat (v / 262144 % 8 + 240)).toNat = v / 262144 + 240 := by
    rw [toNat_ofNat_of_lt] <;> omega
  refine ⟨if v / 262144 + 240 = 0xF0 then 0x90 else 0x80,
    if v / 262144 + 240 = 0xF4 then 0x8F else 0xBF, ?_, ?_, ?_⟩
  · simp only [start, first]
    rw [if_neg (by omega), if_neg (by omega), if_neg (by omega), if_pos (by omega),
      Nat.add_sub_cancel]
  · split <;> omega
  · split <;> omega

/-- The bytes of a character are read as that character, whatever follows. -/
theorem decodeFrom_utf8EncodeChar (c : Char) (bytes : List UInt8) :
    decodeFrom none (String.utf8EncodeChar c ++ bytes) = c :: decodeFrom none bytes := by
  have hv : c.toNat < 0xD800 ∨ (0xDFFF < c.toNat ∧ c.toNat < 0x110000) := c.valid
  have hc := Char.ofNat_toNat c
  have hval : c.val.toNat = c.toNat := rfl
  simp only [String.utf8EncodeChar, hval]
  generalize c.toNat = v at hv hc
  subst hc
  have last : (UInt8.ofNat (v % 64 + 128)).toNat = v % 64 + 128 := toNat_ofNat_of_lt (by omega)
  have second : (UInt8.ofNat (v / 64 % 64 + 128)).toNat = v / 64 % 64 + 128 :=
    toNat_ofNat_of_lt (by omega)
  have third : (UInt8.ofNat (v / 4096 % 64 + 128)).toNat = v / 4096 % 64 + 128 :=
    toNat_ofNat_of_lt (by omega)
  -- One case for each number of bytes. After the first one the bytes have six bits each.
  by_cases h1 : v ≤ 0x7F
  · have first : (UInt8.ofNat v).toNat = v := toNat_ofNat_of_lt (by omega)
    simp [h1, decodeFrom, start, first]
  by_cases h2 : v ≤ 0x7FF
  · have hs := start_of_two (Nat.lt_of_not_le h1) h2
    simp only [h1, h2, if_true, if_false, List.cons_append, List.nil_append, decodeFrom, hs]
    rw [Pending.next_last (by omega), last, Nat.add_sub_cancel, Nat.div_add_mod']
    rfl
  by_cases h3 : v ≤ 0xFFFF
  · obtain ⟨low, high, hs, hlow, hhigh⟩ :=
      exists_start_of_three (Nat.lt_of_not_le h2) h3 (hv.imp_right And.left)
    simp only [h1, h2, h3, if_true, if_false, List.cons_append, List.nil_append, decodeFrom, hs]
    rw [Pending.next_inner (by omega)]
    simp only [decodeFrom, List.nil_append]
    rw [Pending.next_last (by omega), last, second, Nat.add_sub_cancel, Nat.add_sub_cancel,
      show (v / 4096 * 64 + v / 64 % 64) * 64 + v % 64 = v by omega]
    rfl
  · obtain ⟨low, high, hs, hlow, hhigh⟩ :=
      exists_start_of_four (Nat.lt_of_not_le h3) (by omega)
    simp only [h1, h2, h3, if_false, List.cons_append, List.nil_append, decodeFrom, hs]
    rw [Pending.next_inner (by omega)]
    simp only [decodeFrom, List.nil_append]
    rw [Pending.next_inner (by omega)]
    simp only [decodeFrom, List.nil_append]
    rw [Pending.next_last (by omega), last, second, third, Nat.add_sub_cancel,
      Nat.add_sub_cancel, Nat.add_sub_cancel,
      show ((v / 262144 * 64 + v / 4096 % 64) * 64 + v / 64 % 64) * 64 + v % 64 = v by omega]
    rfl

/-- A text is read back from its bytes. -/
theorem decode_encode (cs : List Char) : decode (encode cs) = cs := by
  simp only [decode, encode]
  induction cs with
  | nil => rfl
  | cons c cs ih => rw [List.flatMap_cons, decodeFrom_utf8EncodeChar, ih]

/-- The bytes that are UTF-8 are the encodings of texts. -/
theorem decode?_eq_some_iff {bytes : List UInt8} {cs : List Char} :
    decode? bytes = some cs ↔ bytes = encode cs := by
  simp only [decode?]
  refine ⟨fun h => ?_, fun h => ?_⟩
  · split at h
    · next he => rw [← he, Option.some.inj h]
    · contradiction
  · subst h
    rw [decode_encode, if_pos rfl]

/-! ### ASCII among other bytes -/

/-- No byte of ASCII goes on with a character that a byte begins. -/
theorem low_of_start {b : UInt8} {q : Pending} (h : (start b).2 = some q) : 0x80 ≤ q.low := by
  unfold start at h
  dsimp only at h
  split at h
  · cases h
  split at h
  · obtain rfl := Option.some.inj h
    exact Nat.le_refl _
  split at h
  · obtain rfl := Option.some.inj h
    dsimp only
    split <;> decide
  split at h
  · obtain rfl := Option.some.inj h
    dsimp only
    split <;> decide
  · cases h

/-- What may follow within a character is never a byte of ASCII. -/
theorem Pending.low_of_next {p q : Pending} {b : UInt8} (h : (p.next b).2 = some q) :
    0x80 ≤ q.low := by
  unfold next at h
  dsimp only at h
  split at h
  · split at h
    · cases h
    · obtain rfl := Option.some.inj h
      exact Nat.le_refl _
  · exact low_of_start h

/-- A byte of ASCII ends a character that has begun, so it is read as if nothing came before. -/
theorem decodeFrom_append_cons {p : Option Pending} (hp : ∀ q, p = some q → 0x80 ≤ q.low)
    (xs : List UInt8) {b : UInt8} (hb : b.toNat ≤ 0x7F) (ys : List UInt8) :
    decodeFrom p (xs ++ b :: ys) = decodeFrom p xs ++ decodeFrom none (b :: ys) := by
  induction xs generalizing p with
  | nil =>
    cases p with
    | none => rfl
    | some q =>
      have hlow := hp q rfl
      have hnext : q.next b = (replacement :: (start b).1, (start b).2) := if_neg (by omega)
      simp only [List.nil_append, decodeFrom, hnext, List.cons_append]
  | cons x xs ih =>
    cases p with
    | none =>
      simp only [List.cons_append, decodeFrom, ih fun q hq => low_of_start hq, List.append_assoc]
    | some p =>
      simp only [List.cons_append, decodeFrom, ih fun q hq => Pending.low_of_next hq,
        List.append_assoc]

/-- Bytes may be read in two parts where the second one begins with a byte of ASCII. -/
theorem decode_append_cons (xs : List UInt8) {b : UInt8} (hb : b.toNat ≤ 0x7F) (ys : List UInt8) :
    decode (xs ++ b :: ys) = decode xs ++ decode (b :: ys) :=
  decodeFrom_append_cons (fun q hq => by cases hq) xs hb ys

/-- Spaces at the end are read as spaces. -/
theorem decode_append_replicate (xs : List UInt8) (n : Nat) :
    decode (xs ++ List.replicate n 32) = decode xs ++ List.replicate n ' ' := by
  induction n with
  | zero => simp
  | succ n ih =>
    rw [List.replicate_succ', List.replicate_succ', ← List.append_assoc, ← List.append_assoc,
      decode_append_cons _ (by decide), ih]
    rfl

/-! ### The order of bytes -/

/-- The bytes of a number after the first one, as many as are asked for: each holds a digit to the
base 64. -/
def trail : Nat → Nat → List UInt8
  | 0, _ => []
  | size + 1, v => UInt8.ofNat (v / Nat.pow 64 size % 64 + 0x80) :: trail size v

/-- Bytes are in the order of the first ones that differ. -/
theorem cons_lt_cons {m n : Nat} (hm : m < 256) (hn : n < 256) {xs ys : List UInt8}
    (h : m < n ∨ m = n ∧ xs < ys) : UInt8.ofNat m :: xs < UInt8.ofNat n :: ys := by
  rw [List.cons_lt_cons_iff, UInt8.lt_iff_toNat_lt, toNat_ofNat_of_lt hm, toNat_ofNat_of_lt hn]
  exact h.imp_right fun ⟨heq, hlt⟩ => ⟨congrArg UInt8.ofNat heq, hlt⟩

/-- Of two numbers whose higher digits agree, the lesser one has the lesser bytes. -/
theorem trail_lt_trail (size : Nat) {v w : Nat} (h : v < w)
    (htop : v / Nat.pow 64 size = w / Nat.pow 64 size) (xs ys : List UInt8) :
    trail size v ++ xs < trail size w ++ ys := by
  induction size with
  | zero =>
    have heq : v = w := (Nat.div_one v).symm.trans (htop.trans (Nat.div_one w))
    exact absurd heq (Nat.ne_of_lt h)
  | succ size ih =>
    have hdigit (u : Nat) : u / Nat.pow 64 (size + 1) = u / Nat.pow 64 size / 64 :=
      (Nat.div_div_eq_div_mul u (Nat.pow 64 size) 64).symm
    have hle : v / Nat.pow 64 size ≤ w / Nat.pow 64 size := Nat.div_le_div_right (Nat.le_of_lt h)
    rw [hdigit, hdigit] at htop
    -- The digit here decides, unless it is the same in both and the lower ones do.
    refine cons_lt_cons (by omega) (by omega) ?_
    rcases Nat.lt_or_eq_of_le hle with hlt | heq
    · exact .inl (by omega)
    · exact .inr ⟨by rw [heq], ih heq⟩

/-- The first byte of a character says how many follow and holds the highest digits. -/
theorem utf8EncodeChar_eq (c : Char) : ∃ size lead,
    String.utf8EncodeChar c = UInt8.ofNat lead :: trail size c.toNat ∧
      (size = 0 ∧ lead = c.toNat ∧ c.toNat ≤ 0x7F ∨
        size = 1 ∧ lead = c.toNat / 64 + 0xC0 ∧ 0x7F < c.toNat ∧ c.toNat ≤ 0x7FF ∨
        size = 2 ∧ lead = c.toNat / 4096 + 0xE0 ∧ 0x7FF < c.toNat ∧ c.toNat ≤ 0xFFFF ∨
        size = 3 ∧ lead = c.toNat / 262144 + 0xF0 ∧ 0xFFFF < c.toNat ∧ c.toNat < 0x110000) := by
  have hmax : c.toNat < 0x110000 := by
    rcases c.valid with hlow | hhigh
    · exact Nat.lt_trans hlow (by decide)
    · exact hhigh.2
  have hval : c.val.toNat = c.toNat := rfl
  simp only [String.utf8EncodeChar, hval]
  generalize c.toNat = v at hmax ⊢
  -- In each size the number has no digit above the first byte's, so nothing is cut off there.
  split
  · next h => exact ⟨0, v, rfl, .inl ⟨rfl, rfl, h⟩⟩
  · split
    · next hlow h =>
      have hlead : v / 64 % 32 + 192 = v / 64 + 192 := by omega
      refine ⟨1, v / 64 + 192, ?_, .inr (.inl ⟨rfl, rfl, by omega, h⟩)⟩
      rw [hlead]
      simp [trail]
    · split
      · next hlow h =>
        have hlead : v / 4096 % 16 + 224 = v / 4096 + 224 := by omega
        refine ⟨2, v / 4096 + 224, ?_, .inr (.inr (.inl ⟨rfl, rfl, by omega, h⟩))⟩
        rw [hlead]
        simp [trail]
      · next hlow =>
        have hlead : v / 262144 % 8 + 240 = v / 262144 + 240 := by omega
        refine ⟨3, v / 262144 + 240, ?_, .inr (.inr (.inr ⟨rfl, rfl, by omega, hmax⟩))⟩
        rw [hlead]
        simp [trail]

/-- The lesser character has the lesser bytes, whatever follows. -/
theorem utf8EncodeChar_lt {c d : Char} (h : c < d) (xs ys : List UInt8) :
    String.utf8EncodeChar c ++ xs < String.utf8EncodeChar d ++ ys := by
  have hlt : c.toNat < d.toNat := h
  obtain ⟨m, lead, hc, hm⟩ := utf8EncodeChar_eq c
  obtain ⟨n, lead', hd, hn⟩ := utf8EncodeChar_eq d
  rw [hc, hd, List.cons_append, List.cons_append]
  refine cons_lt_cons (by omega) (by omega) ?_
  -- Without a difference in the first bytes the characters are of one size and share their top.
  rcases Nat.lt_trichotomy lead lead' with hlead | hlead | hlead
  · exact .inl hlead
  · have hsize : m = n := by omega
    subst hsize
    refine .inr ⟨hlead, trail_lt_trail m hlt ?_ xs ys⟩
    rcases hm with ⟨rfl, _⟩ | ⟨rfl, _⟩ | ⟨rfl, _⟩ | ⟨rfl, _⟩
    · omega
    · show c.toNat / 64 = d.toNat / 64
      omega
    · show c.toNat / 4096 = d.toNat / 4096
      omega
    · show c.toNat / 262144 = d.toNat / 262144
      omega
  · omega

/-- Encoded texts are in the order of the texts. -/
theorem encode_lt_encode {cs ds : List Char} (h : cs < ds) : encode cs < encode ds := by
  induction cs generalizing ds with
  | nil =>
    cases ds with
    | nil => exact absurd h (List.lt_irrefl [])
    | cons d ds =>
      obtain ⟨size, lead, hd, -⟩ := utf8EncodeChar_eq d
      show [] < String.utf8EncodeChar d ++ encode ds
      rw [hd]
      exact List.nil_lt_cons _ _
  | cons c cs ih =>
    cases ds with
    | nil => exact absurd h (List.not_lt_nil _)
    | cons d ds =>
      show String.utf8EncodeChar c ++ encode cs < String.utf8EncodeChar d ++ encode ds
      rcases List.cons_lt_cons_iff.1 h with hcd | ⟨rfl, hlt⟩
      · exact utf8EncodeChar_lt hcd _ _
      · exact List.append_left_lt (ih hlt)

/-- The order of texts is the order of their bytes. -/
theorem encode_lt_encode_iff {cs ds : List Char} : encode cs < encode ds ↔ cs < ds := by
  refine ⟨fun h => Decidable.byContradiction fun hnot => ?_, encode_lt_encode⟩
  -- Texts that are in neither order are the same.
  have hnot' : ¬ ds < cs := fun hgt => List.lt_asymm h (encode_lt_encode hgt)
  have heq : ds = cs := List.le_antisymm (List.not_lt.1 hnot) (List.not_lt.1 hnot')
  subst heq
  exact List.lt_irrefl _ h

end TypedConfig.Utf8
