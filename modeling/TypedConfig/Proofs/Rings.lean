import TypedConfig.Proofs.Numbers
import TypedConfig.Proofs.Representation

/-!
# Offsets that go round

The variants of an enum, and the colors where the bound leaves none of them out, stand in a ring
(`Domain.IsRing`): an offset leads as many places on as it says, round the ends as often as that
takes. The sum of a color and an offset is formed in 64 bits, where only a sum that fits in them is
the exact one (`FitsWord`). Null counts as the first place. So the offsets of a run add up
(`Entry.Stands.takesAll`), and an offset and its negation lead back to where the option stood
(`Entry.GoesRound`). They do not lead back to null, which is no place.
-/

namespace TypedConfig

namespace Step

/-- The texts that ask for a move by an offset: the number after `++`, or the negation of the number
after `--`, which has to be one of 64 bits as well. -/
inductive Moves : String → Int → Prop
  | forward {rest : String} {n : Int} (h : Numeral.int64? rest = some n) : Moves ("++" ++ rest) n
  | back {rest : String} {n : Int} (h : Numeral.int64? rest = some n)
      (hn : -n ≤ Numeral.int64Greatest) : Moves ("--" ++ rest) (-n)

/-- A text that asks for a move is read as the offset. -/
theorem Moves.ofText_eq {text : String} {n : Int} (h : Moves text n) : ofText text = .offset n := by
  cases h with
  | forward h => exact ofText_increase_of_int64? h
  | back h hn => exact ofText_decrease_of_int64? h hn

/-- Texts that ask for one move after the other round a ring, from a place on, and the sum of the
offsets. The sum of an offset and the place where it is met has to count. -/
inductive MoveAll (size : Int) (Counts : Int → Prop) : Int → List String → Int → Prop
  | nil (place : Int) : MoveAll size Counts place [] 0
  | cons {place : Int} {text : String} {n : Int} {texts : List String} {total : Int}
      (h : Moves text n) (hcounts : Counts (place + n))
      (rest : MoveAll size Counts ((place + n) % size) texts total) :
      MoveAll size Counts place (text :: texts) (n + total)

end Step

/-! ## Domains -/

/-- The sum of a place and an offset can be formed in 64 bits. -/
def FitsWord (sum : Int) : Prop :=
  Numeral.int64Least ≤ sum ∧ sum ≤ Numeral.int64Greatest

/-- A color of a palette is shifted round the palette, if the sum can be formed. -/
theorem Palette.shift?_of_mem_range {p : Palette} {color offset : Int} (hnonneg : 0 ≤ color)
    (hlt : color < p.size) (hfits : FitsWord (color + offset)) :
    p.shift? color offset = some ((color + offset) % p.size) := by
  unfold shift?
  rw [if_neg (by omega : p.size ≠ 0)]
  dsimp only
  rw [if_pos ⟨hnonneg, hlt⟩, wrappingAdd_of_mem_range hfits.1 hfits.2]

namespace Domain

/-- That the offset is brought into the list first makes no difference to the position. -/
theorem acceptEnum?_offset {variants : List String} (h : variants ≠ []) {text : String} {n : Int}
    (htext : Step.ofText text = .offset n) (i : Nat) :
    acceptEnum? variants (some (.enum i)) text =
      some (((i : Int) + n) % variants.length).toNat := by
  have hpos : 0 < variants.length := List.length_pos_iff.2 h
  have hn : 0 ≤ n % (variants.length : Int) := Int.emod_nonneg n (by omega)
  have hplace : (((i + (n % (variants.length : Int)).toNat) % variants.length : Nat) : Int) =
      (i + n) % variants.length := by
    rw [Int.natCast_emod, Int.natCast_add, Int.toNat_of_nonneg hn, Int.add_emod_emod]
  unfold acceptEnum?
  dsimp only
  rw [if_neg (by omega), htext, ← hplace, Int.toNat_natCast]

/-- Wherever an offset leads from a color, that is a color again; the lower bound may leave it
out. -/
theorem acceptColor?_offset {lo : Int} {palette : Palette} {color : Int} (hnonneg : 0 ≤ color)
    (hlt : color < palette.size) {text : String} {n : Int} (htext : Step.ofText text = .offset n)
    (hfits : FitsWord (color + n)) :
    acceptColor? lo palette (some (.color color)) text =
      if lo ≤ (color + n) % palette.size then some ((color + n) % palette.size) else none := by
  have hpos : (0 : Int) < palette.size := by omega
  have hhi : (color + n) % (palette.size : Int) ≤ palette.size - 1 :=
    Int.le_sub_one_of_lt (Int.emod_lt_of_pos _ hpos)
  unfold acceptColor?
  rw [htext]
  dsimp only
  rw [Palette.shift?_of_mem_range hnonneg hlt hfits, Option.filter_some]
  simp only [hhi, decide_true, Bool.and_true, decide_eq_true_eq]

/-- The values of a domain stand at the places of a ring, where an offset moves on from place to
place if its sum with the place counts, and null counts as the first one. -/
structure IsRing (d : Domain) (size : Int) (value : Int → Value) (Counts : Int → Prop) :
    Prop where
  pos : 0 < size
  /-- Each value has a place. -/
  exists_place : ∀ v, d.Holds v → ∃ p, 0 ≤ p ∧ p < size ∧ v = value p
  /-- The place can be read off the value. -/
  number_value : ∀ p, 0 ≤ p → Cell.asInteger (some (value p)) = p
  /-- An offset is counted from the place of the current value. -/
  move : ∀ p text n, 0 ≤ p → p < size → Step.ofText text = .offset n → Counts (p + n) →
    d.accept? (some (value p)) text = some (value ((p + n) % size))
  /-- Null counts as the first place. -/
  move_null : ∀ text, d.accept? none text = d.accept? (some (value 0)) text

/-- The variants of an enum are a ring, and every offset counts. -/
theorem isRing_enum {variants : List String} (h : variants ≠ []) :
    (Domain.enum variants).IsRing variants.length (fun p => .enum p.toNat) fun _ => True where
  pos := Int.natCast_pos.2 (List.length_pos_iff.2 h)
  exists_place v hv := by
    cases v with
    | enum index =>
      have hlt : index < variants.length := hv
      exact ⟨index, by omega, by omega, rfl⟩
    | _ => exact hv.elim
  number_value p hnonneg := Int.toNat_of_nonneg hnonneg
  move p text n hnonneg hlt htext _ := by
    show (acceptEnum? variants (some (.enum p.toNat)) text).map Value.enum = _
    rw [acceptEnum?_offset h htext, Int.toNat_of_nonneg hnonneg]
    rfl
  move_null text := rfl

/-- The colors of a palette are a ring, if the lower bound leaves none of them out. An offset counts
if its sum with the color can be formed. -/
theorem isRing_color {palette : Palette} (h : palette.names ≠ []) :
    (Domain.color 0 palette).IsRing palette.size .color FitsWord where
  pos := Int.natCast_pos.2 (List.length_pos_iff.2 h)
  exists_place v hv := by
    cases v with
    | color id =>
      obtain ⟨hnonneg, hlt, -⟩ := hv.color h
      exact ⟨id, hnonneg, hlt, rfl⟩
    | _ => exact hv.elim
  number_value p _ := rfl
  move p text n hnonneg hlt htext hfits := by
    have hpos : (0 : Int) < palette.size := by omega
    have hlo : 0 ≤ (p + n) % (palette.size : Int) := Int.emod_nonneg _ (Int.ne_of_gt hpos)
    show (acceptColor? 0 palette (some (.color p)) text).map Value.color = _
    rw [acceptColor?_offset hnonneg hlt htext hfits, if_pos hlo]
    rfl
  move_null text := rfl

end Domain

/-! ## Options -/

namespace Entry

/-- The option takes texts one after the other, refuses none of them and ends as another one. -/
inductive TakesAll : Entry → List String → Entry → Prop
  | nil (e : Entry) : TakesAll e [] e
  | cons {e e' e'' : Entry} {text : String} {texts : List String} {outcome : SetOutcome}
      (h : (e.set (some text)).result = (e', .ok outcome)) (rest : TakesAll e' texts e'') :
      TakesAll e (text :: texts) e''

/-- The place of an option in a ring: null stands for the first one. -/
def place (e : Entry) : Int :=
  Cell.asInteger e.value

variable {e : Entry} {size : Int} {value : Int → Value} {Counts : Int → Prop} {text : String}
  {n : Int}

/-- The value of an option is that of a place in the ring, or null and the place is the first. -/
structure Stands (e : Entry) (size : Int) (value : Int → Value) : Prop where
  nonneg : 0 ≤ e.place
  lt : e.place < size
  value_eq : e.value = some (value e.place) ∨ e.value = none ∧ e.place = 0

/-- A sound option stands somewhere in the ring of its domain. -/
theorem Sound.stands (he : e.Sound) (hring : e.domain.IsRing size value Counts) :
    e.Stands size value := by
  cases hvalue : e.value with
  | none =>
    have hplace : e.place = 0 := by rw [place, hvalue]; rfl
    exact ⟨Int.le_of_eq hplace.symm, hplace ▸ hring.pos, .inr ⟨hvalue, hplace⟩⟩
  | some v =>
    have hget : e.get .value = some v := hvalue
    obtain ⟨p, hnonneg, hlt, rfl⟩ := hring.exists_place v (he.holds hget)
    have hplace : e.place = p := by rw [place, hvalue, hring.number_value p hnonneg]
    subst hplace
    exact ⟨hnonneg, hlt, .inl hvalue⟩

/-- An offset moves an option on. -/
theorem Stands.becomes (h : e.Stands size value) (hring : e.domain.IsRing size value Counts)
    (hcheck : e.check = none) (hmoves : Step.Moves text n) (hcounts : Counts (e.place + n)) :
    e.Becomes text (value ((e.place + n) % size)) := by
  refine becomes_of_accept? hcheck ?_
  have haccept := hring.move e.place text n h.nonneg h.lt hmoves.ofText_eq hcounts
  rcases h.value_eq with hvalue | ⟨hnull, hplace⟩
  · rw [hvalue]
    exact haccept
  · rw [hnull, hring.move_null, ← hplace]
    exact haccept

/-- Once an option stands somewhere, it still does after a move. -/
theorem stands_of_value (hring : e.domain.IsRing size value Counts) {p : Int} (hnonneg : 0 ≤ p)
    (hlt : p < size) (hvalue : e.value = some (value p)) : e.place = p ∧ e.Stands size value := by
  have hplace : e.place = p := by rw [place, hvalue, hring.number_value p hnonneg]
  subst hplace
  exact ⟨rfl, hnonneg, hlt, .inl hvalue⟩

/-- The offsets of a run add up. -/
theorem Stands.takesAll (h : e.Stands size value) (hring : e.domain.IsRing size value Counts)
    (hcheck : e.check = none) (hmoves : Step.Moves text n) (hcounts : Counts (e.place + n))
    {texts : List String} {total : Int}
    (hrest : Step.MoveAll size Counts ((e.place + n) % size) texts total) :
    e.TakesAll (text :: texts)
      { e with value := some (value ((e.place + (n + total)) % size)) } := by
  generalize hplace : (e.place + n) % size = p at hrest
  induction hrest generalizing e text n with
  | nil =>
    rw [Int.add_zero]
    exact .cons (h.becomes hring hcheck hmoves hcounts) (.nil _)
  | cons hnext hcountsNext _ ih =>
    -- The rest of the run starts at the place that the first move has led to.
    have hlo : 0 ≤ (e.place + n) % size := Int.emod_nonneg _ (Int.ne_of_gt hring.pos)
    have hhi : (e.place + n) % size < size := Int.emod_lt_of_pos _ hring.pos
    obtain ⟨hnow, hstands⟩ :=
      stands_of_value (e := { e with value := some (value ((e.place + n) % size)) })
        hring hlo hhi rfl
    subst hplace
    have hrun := ih hstands hring hcheck hnext (by rwa [hnow]) (by rw [hnow])
    rw [hnow, Int.emod_add_emod, Int.add_assoc] at hrun
    exact .cons (h.becomes hring hcheck hmoves hcounts) hrun

/-- How an option goes round a ring of places. An offset is said to count where its sum with the
place can be formed. -/
structure GoesRound (e : Entry) (size : Int) (value : Int → Value) (Counts : Int → Prop) :
    Prop where
  /-- The option is at one of the places; null stands for the first one. -/
  stands : e.Stands size value
  /-- An offset is never refused and leads to the remainder of its sum with the place. -/
  moves : ∀ text n, Step.Moves text n → Counts (e.place + n) →
    e.Becomes text (value ((e.place + n) % size))
  /-- Two offsets, one after the other, lead where their sum leads. -/
  sum : ∀ s t u m n, Step.Moves s m → Step.Moves t n → Step.Moves u (m + n) →
    Counts (e.place + m) → Counts ((e.place + m) % size + n) → Counts (e.place + (m + n)) →
    ∃ e', e.TakesAll [s, t] e' ∧ e.TakesAll [u] e'
  /-- An offset and its negation lead back to a value. -/
  restores : ∀ s t n, Step.Moves s n → Step.Moves t (-n) →
    Counts (e.place + n) → Counts ((e.place + n) % size - n) →
    e.value ≠ none → e.TakesAll [s, t] e
  /-- From null they lead to the first place. -/
  restarts : ∀ s t n, Step.Moves s n → Step.Moves t (-n) →
    Counts (e.place + n) → Counts ((e.place + n) % size - n) →
    e.value = none → e.TakesAll [s, t] { e with value := some (value 0) }

/-- An option that stands in a ring goes round it. -/
theorem Stands.goesRound (h : e.Stands size value) (hring : e.domain.IsRing size value Counts)
    (hcheck : e.check = none) : e.GoesRound size value Counts := by
  -- The way back adds up to no move at all.
  have back {s t : String} {n : Int} (hs : Step.Moves s n) (ht : Step.Moves t (-n))
      (hcounts : Counts (e.place + n)) (hreturns : Counts ((e.place + n) % size - n)) :
      e.TakesAll [s, t] { e with value := some (value e.place) } := by
    have hboth := h.takesAll hring hcheck hs hcounts (.cons ht hreturns (.nil _))
    rwa [Int.add_zero, Int.add_right_neg, Int.add_zero, Int.emod_eq_of_lt h.nonneg h.lt] at hboth
  refine ⟨h, fun text n hmoves => h.becomes hring hcheck hmoves, ?_, ?_, ?_⟩
  · intro s t u m n hs ht hu hfirst hsecond hsum
    have hboth := h.takesAll hring hcheck hs hfirst (.cons ht hsecond (.nil _))
    have hone := h.takesAll hring hcheck hu hsum (.nil _)
    rw [Int.add_zero] at hboth hone
    exact ⟨_, hboth, hone⟩
  · intro s t n hs ht hcounts hreturns hvalue
    have hplace : e.value = some (value e.place) :=
      h.value_eq.resolve_right fun hnull => hvalue hnull.1
    have hback := back hs ht hcounts hreturns
    rwa [← hplace] at hback
  · intro s t n hs ht hcounts hreturns hnull
    have hplace : e.place = 0 := by rw [place, hnull]; rfl
    exact hplace ▸ back hs ht hcounts hreturns

end Entry

namespace Registry

/-- All enums, and all colors whose lower bound is zero, go round. The place of a color and the
offset are added in 64 bits, so what is said of colors is said where their sum is such a number. -/
theorem goesRound_of_reachable {r : Registry} (hr : r.Reachable) {e : Entry} (he : e ∈ r.entries)
    (hcheck : e.check = none) :
    (∀ variants, e.domain = .enum variants →
      e.GoesRound variants.length (fun p => .enum p.toNat) fun _ => True) ∧
    ∀ palette, e.domain = .color 0 palette → palette.names ≠ [] →
      e.GoesRound palette.size .color fun sum =>
        Numeral.int64Least ≤ sum ∧ sum ≤ Numeral.int64Greatest := by
  have hsound := hr.sound he
  refine ⟨fun variants hdomain => ?_, fun palette hdomain hnames => ?_⟩
  · have hvariants : variants ≠ [] := by
      have hvalid := hsound.domain
      rw [hdomain] at hvalid
      exact hvalid
    have hring := Domain.isRing_enum hvariants
    rw [← hdomain] at hring
    exact (hsound.stands hring).goesRound hring hcheck
  · have hring := Domain.isRing_color hnames
    rw [← hdomain] at hring
    exact (hsound.stands hring).goesRound hring hcheck

/-- A run that makes a color and an enum without a value. -/
def circling : List Operation :=
  [.addFile "app", .addSection "app" { name := "look" },
    .edit "app" "look"
      (.define { name := "hue", kind := .color, default := some "white" } fun _ =>
        .define { name := "mode", kind := .enum, labels := ["low", "medium", "high"],
                  nullable := true } fun _ => .finish (.ok ()))]

/-- What `circling` leads to. -/
def circled : Registry :=
  (run circling { env := { dir := "/etc" } } {}).result.1

/-- A host can bring it about. -/
theorem reachable_circled : circled.Reachable := by
  unfold circled
  exact ⟨{ dir := "/etc" }, circling, {}, rfl⟩

/-- The color takes the greatest offset that can be added to it, and the way back. The least offset
of all leads the enum to its second variant. -/
theorem goesRound_of_reachable_circled :
    (∃ e ∈ circled.entries, e.value = some (.color 16) ∧
      e.Becomes "++9223372036854775791" (.color 8) ∧
      e.TakesAll ["++9223372036854775791", "--9223372036854775791"] e) ∧
    ∃ e ∈ circled.entries, e.value = none ∧
      e.Becomes "++-9223372036854775808" (.enum 1) := by
  have hnumber : Numeral.int64? "9223372036854775791" = some 9223372036854775791 := by
    decide +kernel
  have hleast : Numeral.int64? "-9223372036854775808" = some (-9223372036854775808) := by
    decide +kernel
  constructor
  · obtain ⟨e, he, hdomain, hvalue, hplace, hcheck⟩ : ∃ e ∈ circled.entries,
        e.domain = .color 0 .basic ∧ e.value = some (.color 16) ∧ e.place = 16 ∧
          e.check.isNone := by
      decide +kernel
    have h := (goesRound_of_reachable reachable_circled he (Option.isNone_iff_eq_none.1 hcheck)).2
      _ hdomain (by decide)
    have hmoves := h.moves _ _ (.forward hnumber) (by rw [hplace]; decide)
    rw [hplace] at hmoves
    refine ⟨e, he, hvalue, hmoves, ?_⟩
    exact h.restores _ _ _ (.forward hnumber) (.back hnumber (by decide)) (by rw [hplace]; decide)
      (by rw [hplace]; decide) (by rw [hvalue]; nofun)
  · obtain ⟨e, he, hdomain, hvalue, hplace, hcheck⟩ : ∃ e ∈ circled.entries,
        e.domain = .enum ["low", "medium", "high"] ∧ e.value = none ∧ e.place = 0 ∧
          e.check.isNone := by
      decide +kernel
    have h := (goesRound_of_reachable reachable_circled he (Option.isNone_iff_eq_none.1 hcheck)).1
      _ hdomain
    have hmoves := h.moves _ _ (.forward hleast) trivial
    rw [hplace] at hmoves
    exact ⟨e, he, hvalue, hmoves⟩

/-- From null an offset and its negation do not lead back, but to the first variant. -/
theorem not_restored_circled : circled.Reachable ∧
    ∃ e ∈ circled.entries, e.check.isNone ∧ e.domain = .enum ["low", "medium", "high"] ∧
      e.value = none ∧ (e.setAll [some "++1", some "--1"]).value = some (.enum 0) ∧
      e.setAll [some "++1", some "--1"] ≠ e := by
  obtain ⟨e, he, hcheck, hdomain, hvalue, hset⟩ : ∃ e ∈ circled.entries, e.check.isNone ∧
      e.domain = .enum ["low", "medium", "high"] ∧ e.value = none ∧
        (e.setAll [some "++1", some "--1"]).value = some (.enum 0) := by
    decide +kernel
  refine ⟨reachable_circled, e, he, hcheck, hdomain, hvalue, hset, fun hsame => ?_⟩
  rw [hsame, hvalue] at hset
  cases hset

end Registry

end TypedConfig
