import TypedConfig.Proofs.Direct
import TypedConfig.Proofs.Representation

/-!
# Toggles, one after the other

With at least two candidates that suit the option (`Entry.Suits`), toggles go through them in their
order and round the end, and each of them is a change (`Entry.CyclesThrough`). Without candidates a
boolean flips at each toggle (`Entry.Flips`). A string goes back and forth between the empty text
and its default value (`Entry.Alternates`); it can always go there, since only options that allow
null have null as their default value.

Each of these is what one toggle does (`Entry.Ready.togglesTo_next`, `Entry.result_toggle_boolean`,
`Entry.result_toggle_string`), carried along a run by induction.
-/

namespace TypedConfig

namespace Entry

/-- The option after it was toggled a number of times. -/
def toggled (e : Entry) (candidates : Option (List String)) (k : Nat) : Entry :=
  e.mutateAll (List.replicate k (.toggle candidates))

variable {e : Entry} {candidates : Option (List String)} {cs : List String} {c : String}

/-- One more toggle starts from where the others have led. -/
theorem toggled_succ (e : Entry) (candidates : Option (List String)) (k : Nat) :
    e.toggled candidates (k + 1) = ((e.toggled candidates k).toggle candidates).result.1 := by
  unfold toggled mutateAll
  rw [List.replicate_succ', List.foldl_append]
  rfl

/-- A toggle that moves to an input sets it. -/
theorem toggle_of_toggleMove {input : Option String}
    (h : e.toggleMove candidates = .set input) : e.toggle candidates = e.set input := by
  rw [toggle, h]

/-- Without a check null is set where it is allowed. -/
theorem set_none (hcheck : e.check = none) (hnull : e.nullable = true) :
    e.set none = e.store .value none := by
  simp only [set, hcheck, storeInput, storeNull, if_pos hnull]

/-- A toggle changes the value and nothing else. -/
theorem toggle_frame (e : Entry) (candidates : Option (List String)) :
    ∃ value, (e.toggle candidates).result.1 = { e with value } := by
  have h := settles_mutate e (.toggle candidates)
  by_cases hchanged : (e.mutate (.toggle candidates)).result.2 = .ok .changed
  · exact ⟨_, h.changed_entry hchanged⟩
  · exact ⟨e.value, h.unchanged_entry hchanged⟩

/-- Toggles change the value and nothing else. -/
theorem toggled_frame (e : Entry) (candidates : Option (List String)) (k : Nat) :
    ∃ value, e.toggled candidates k = { e with value } := by
  induction k with
  | zero => exact ⟨e.value, rfl⟩
  | succ k ih =>
    obtain ⟨_, hk⟩ := ih
    obtain ⟨value, hnext⟩ := toggle_frame (e.toggled candidates k) candidates
    exact ⟨value, by rw [toggled_succ, hnext, hk]⟩

/-- An option stays sound over all toggles. -/
theorem Sound.toggled (h : e.Sound) (candidates : Option (List String)) (k : Nat) :
    (e.toggled candidates k).Sound := by
  induction k with
  | zero => exact h
  | succ k ih =>
    rw [toggled_succ]
    exact ih.mutate (.toggle candidates)

/-! ## Candidates -/

/-- A candidate is known by the text of its input, and `null` by none. -/
theorem getD_candidateInput (c : String) : (candidateInput c).getD nullText = c := by
  unfold candidateInput
  split
  · next h => exact h.symm
  · rfl

/-- The candidates that an option can always be toggled to. -/
inductive Suits (e : Entry) : String → Prop
  /-- `null`, where the option allows it. -/
  | null (h : e.nullable = true) : Suits e nullText
  /-- Any other text that a set takes, whatever the value is, and that the option then shows. -/
  | text {c : String} (hc : c ≠ nullText)
      (h : ∀ v, e.MayHold v → ∃ e' outcome,
        ({ e with value := v }.set (some c)).result = (e', .ok outcome) ∧ e'.valueText = some c) :
      Suits e c

/-- What suits an option does so whatever its value is. -/
theorem Suits.of_value (h : e.Suits c) (v : Option Value) : { e with value := v }.Suits c := by
  cases h with
  | null h => exact .null h
  | text hc h => exact .text hc h

/-- A text that the domain knows suits the option if it is the canonical one for its value. -/
theorem suits_of_knows (hcheck : e.check = none) (hc : c ≠ nullText)
    (hrelative : ¬ e.domain.IsRelative c) (hknown : e.domain.Knows c)
    (hcanonical : e.domain.format (e.domain.convert c) = c) : e.Suits c := by
  refine .text hc fun v _ => ?_
  have hbecomes := becomes_of_accept? (e := { e with value := v }) hcheck
    ((Domain.accept?_eq_some_iff hrelative v _).2 ⟨hknown, rfl⟩)
  exact ⟨_, _, hbecomes, congrArg some hcanonical⟩

/-- A candidate that is not there yet is reached, and this is a change. -/
theorem Suits.reaches (h : e.Suits c) (he : e.Sound) (hcheck : e.check = none)
    (hne : e.shown ≠ c) :
    (e.set (candidateInput c)).result.2 = .ok .changed ∧
      (e.set (candidateInput c)).result.1.valueText = candidateInput c := by
  have hreached : (e.set (candidateInput c)).result.1.valueText = candidateInput c := by
    cases h with
    | null hnull =>
      have hinput : candidateInput nullText = none := if_pos rfl
      rw [hinput, set_none hcheck hnull, store_entry]
      rfl
    | text hc h =>
      have hinput : candidateInput c = some c := if_neg hc
      obtain ⟨e', outcome, hset, htext⟩ := h e.value he.value
      rw [hinput]
      show ({ e with value := e.value }.set (some c)).result.1.valueText = some c
      rw [hset, htext]
  refine ⟨Classical.byContradiction fun hkept => hne ?_, hreached⟩
  -- Without a change the option would have been at the candidate before.
  rw [(settles_set e (candidateInput c)).unchanged_entry hkept] at hreached
  rw [shown, hreached, getD_candidateInput]

/-- From a candidate the move is to the next one, which after the last is the first. -/
theorem candidateToggle_of_getElem? (hnodup : cs.Nodup) (htwo : 2 ≤ cs.length) {j : Nat}
    (hj : cs[j]? = some e.shown) (hc : cs[(j + 1) % cs.length]? = some c) :
    e.candidateToggle cs = .set (candidateInput c) := by
  obtain ⟨hlt, hshown⟩ := List.getElem?_eq_some_iff.1 hj
  have hindex : cs.idxOf? e.shown = some j := by
    refine List.idxOf?_eq_some_iff.2 ⟨hlt, hshown, fun i hi hsame => ?_⟩
    exact List.pairwise_iff_getElem.1 hnodup i j (by omega) hlt hi (hsame.trans hshown.symm)
  unfold candidateToggle
  split
  · simp at htwo
  · next first rest =>
    rw [hindex]
    dsimp only
    -- Either there is a next candidate, or the list ends here and starts again.
    by_cases hlast : j + 1 < (first :: rest).length
    · rw [Nat.mod_eq_of_lt hlast] at hc
      rw [hc]
    · have hend : j + 1 = (first :: rest).length := by omega
      rw [hend, Nat.mod_self] at hc
      obtain rfl : first = c := Option.some.inj hc
      -- A single candidate would mean a reset.
      have hrest : rest.isEmpty = false := by
        cases rest with
        | nil => simp at htwo
        | cons => rfl
      rw [List.getElem?_eq_none (by omega), hrest]
      rfl

/-- From anywhere else it is to the first candidate. -/
theorem candidateToggle_of_not_mem (h : e.shown ∉ cs) (hc : cs[0]? = some c) :
    e.candidateToggle cs = .set (candidateInput c) := by
  have hindex : cs.idxOf? e.shown = none := List.idxOf?_eq_none_iff.2 h
  unfold candidateToggle
  split
  · simp at hc
  · next first rest =>
    obtain rfl : first = c := Option.some.inj hc
    rw [hindex]

/-- An option and candidates that it can be toggled through. -/
structure Ready (e : Entry) (cs : List String) : Prop where
  sound : e.Sound
  check : e.check = none
  nodup : cs.Nodup
  two_le : 2 ≤ cs.length
  suits : ∀ c ∈ cs, e.Suits c

/-- An option stays ready over all toggles. -/
theorem Ready.toggled (h : e.Ready cs) (candidates : Option (List String)) (k : Nat) :
    (e.toggled candidates k).Ready cs := by
  have hsound := h.sound.toggled candidates k
  obtain ⟨value, hk⟩ := toggled_frame e candidates k
  rw [hk] at hsound ⊢
  exact ⟨hsound, h.check, h.nodup, h.two_le, fun c hc => (h.suits c hc).of_value value⟩

/-- A toggle is a change and leads to the candidate at a position. -/
def TogglesTo (e : Entry) (cs : List String) (i : Nat) : Prop :=
  (e.toggle (some cs)).result.2 = .ok .changed ∧
    ∃ c, cs[i]? = some c ∧ (e.toggle (some cs)).result.1.valueText = candidateInput c

/-- What the option shows after a toggle is the candidate, and null is `null`. -/
theorem TogglesTo.shown_eq {i : Nat} (h : e.TogglesTo cs i) :
    cs[i]? = some (e.toggle (some cs)).result.1.shown ∧
      ((e.toggle (some cs)).result.1.value = none ↔
        (e.toggle (some cs)).result.1.shown = nullText) := by
  obtain ⟨-, c, hc, htext⟩ := h
  have hshown : (e.toggle (some cs)).result.1.shown = c := by
    rw [shown, htext, getD_candidateInput]
  refine ⟨by rw [hshown, hc], ?_⟩
  rw [hshown, ← Option.map_eq_none_iff (f := (e.toggle (some cs)).result.1.domain.format)]
  show (e.toggle (some cs)).result.1.valueText = none ↔ c = nullText
  rw [htext]
  unfold candidateInput
  split <;> simp_all

/-- A move to a candidate that is not the current value leads there. -/
theorem Ready.togglesTo (h : e.Ready cs) {i : Nat} (hc : cs[i]? = some c)
    (hmove : e.candidateToggle cs = .set (candidateInput c)) (hne : e.shown ≠ c) :
    e.TogglesTo cs i := by
  have htoggle : e.toggle (some cs) = e.set (candidateInput c) := toggle_of_toggleMove hmove
  obtain ⟨hchanged, htext⟩ :=
    (h.suits c (List.mem_of_getElem? hc)).reaches h.sound h.check hne
  exact ⟨by rw [htoggle, hchanged], c, hc, by rw [htoggle, htext]⟩

/-- From a candidate a toggle leads to the next one. -/
theorem Ready.togglesTo_next (h : e.Ready cs) {j : Nat} (hj : cs[j]? = some e.shown) :
    e.TogglesTo cs ((j + 1) % cs.length) := by
  have htwo := h.two_le
  obtain ⟨hlt, hshown⟩ := List.getElem?_eq_some_iff.1 hj
  have hnext : (j + 1) % cs.length < cs.length := Nat.mod_lt _ (by omega)
  -- Of two candidates or more the next one is another, and so is its text.
  have hne : (j + 1) % cs.length ≠ j := by
    rcases Nat.lt_or_ge (j + 1) cs.length with hinner | hlast
    · rw [Nat.mod_eq_of_lt hinner]
      omega
    · rw [show j + 1 = cs.length by omega, Nat.mod_self]
      omega
  have hc := List.getElem?_eq_getElem hnext
  refine h.togglesTo hc (candidateToggle_of_getElem? h.nodup htwo hj hc) fun hsame => hne ?_
  exact (List.getElem?_inj hnext h.nodup).1 (hc.trans (hsame ▸ hj.symm))

/-- From any other value it leads to the first candidate. -/
theorem Ready.togglesTo_first (h : e.Ready cs) (hother : e.shown ∉ cs) : e.TogglesTo cs 0 := by
  have hpos : 0 < cs.length := Nat.lt_of_lt_of_le Nat.zero_lt_two h.two_le
  have hc := List.getElem?_eq_getElem hpos
  refine h.togglesTo hc (candidateToggle_of_not_mem hother hc) fun hsame => hother ?_
  exact hsame ▸ List.getElem_mem hpos

/-- How an option goes through candidates. -/
structure CyclesThrough (e : Entry) (cs : List String) : Prop where
  /-- From a candidate on, toggles lead from each one to the next, round the end, and each of them
  is a change. -/
  cycle : ∀ j, cs[j]? = some e.shown → ∀ k,
    cs[(j + k) % cs.length]? = some (e.toggled (some cs) k).shown ∧
      ((e.toggled (some cs) k).toggle (some cs)).result.2 = .ok .changed
  /-- From any other value the first toggle leads to the first candidate. -/
  first : e.shown ∉ cs → cs[0]? = some (e.toggled (some cs) 1).shown ∧
    (e.toggle (some cs)).result.2 = .ok .changed
  /-- After a toggle, `null` is null and no text. -/
  null_iff : ∀ k, (e.toggled (some cs) (k + 1)).value = none ↔
    (e.toggled (some cs) (k + 1)).shown = nullText

/-- An option that is ready goes through its candidates. -/
theorem Ready.cyclesThrough (h : e.Ready cs) : e.CyclesThrough cs where
  cycle j hj k := by
    have hlt := (List.getElem?_eq_some_iff.1 hj).1
    -- The position counts on with the toggles; what a toggle needs to know stays (`Ready.toggled`).
    have hshown : cs[(j + k) % cs.length]? = some (e.toggled (some cs) k).shown := by
      induction k with
      | zero =>
        rw [Nat.add_zero, Nat.mod_eq_of_lt hlt]
        exact hj
      | succ k ih =>
        have hnext := ((h.toggled (some cs) k).togglesTo_next ih).shown_eq.1
        rwa [Nat.mod_add_mod, Nat.add_assoc, ← toggled_succ] at hnext
    exact ⟨hshown, ((h.toggled (some cs) k).togglesTo_next hshown).1⟩
  first hother :=
    have hfirst := h.togglesTo_first hother
    ⟨hfirst.shown_eq.1, hfirst.1⟩
  null_iff k := by
    have hk := h.toggled (some cs) k
    rw [toggled_succ]
    by_cases hmem : (e.toggled (some cs) k).shown ∈ cs
    · obtain ⟨j, hj⟩ := List.mem_iff_getElem?.1 hmem
      exact (hk.togglesTo_next hj).shown_eq.2
    · exact (hk.togglesTo_first hmem).shown_eq.2

/-! ## Without candidates -/

/-- A boolean flips, and null counts as off. -/
theorem result_toggle_boolean (hdomain : e.domain = .boolean) (hcheck : e.check = none) :
    (e.toggle none).result =
      ({ e with value := some (.boolean (!Cell.asBoolean e.value)) }, .ok .changed) := by
  have hmove : e.toggleMove none =
      .set (some (if Cell.asBoolean e.value then "off" else "on")) := by
    show e.plainToggle = _
    unfold plainToggle
    rw [hdomain]
    rcases e.value with _ | (flag | _ | _ | _ | _)
    · rfl
    · cases flag <;> rfl
    all_goals rfl
  have hbecomes : e.Becomes (if Cell.asBoolean e.value then "off" else "on")
      (.boolean (!Cell.asBoolean e.value)) := by
    refine becomes_of_accept? hcheck ?_
    rw [hdomain]
    cases Cell.asBoolean e.value <;> rfl
  have hother : e.value ≠ some (.boolean (!Cell.asBoolean e.value)) := by
    intro hsame
    have hflag := congrArg Cell.asBoolean hsame
    simp [Cell.asBoolean] at hflag
  rw [Becomes, if_neg hother] at hbecomes
  rw [toggle_of_toggleMove hmove, hbecomes]

/-- A text is set as it is, and null where it is allowed. -/
theorem result_set_string {lo hi : Int} (hdomain : e.domain = .string lo hi)
    (hcheck : e.check = none) {input : Option String} (hnull : input = none → e.nullable = true) :
    (e.set input).result = ({ e with value := input.map .string },
      .ok (if e.value = input.map .string then .sameValue else .changed)) := by
  cases input with
  | none => rw [set_none hcheck (hnull rfl), result_store_value, Option.map_none]
  | some text =>
    have haccept : e.domain.accept? e.value text = some (.string text) := by
      rw [hdomain]
      rfl
    exact becomes_of_accept? hcheck haccept

/-- The value to which a string with a default value is toggled. -/
def alternate (default value : Option Value) : Option Value :=
  if value = some (.string "") then default else some (.string "")

/-- From the empty text the default value is next. -/
theorem alternate_empty (default : Option Value) :
    alternate default (some (.string "")) = default :=
  if_pos rfl

/-- From the default value the empty text is next. -/
theorem alternate_default (default : Option Value) :
    alternate default default = some (.string "") := by
  -- A default value that is the empty text is kept, and it is the empty text.
  unfold alternate
  split
  · next hempty => exact hempty
  · rfl

/-- A string goes to the empty text, and from there to its default value. -/
theorem result_toggle_string {lo hi : Int} (hdomain : e.domain = .string lo hi)
    (hcheck : e.check = none) (he : e.Sound) :
    (e.toggle none).result = ({ e with value := alternate e.default e.value },
      .ok (if e.value = alternate e.default e.value then .sameValue else .changed)) := by
  by_cases hempty : e.value = some (.string "")
  · -- The default value is a text, or null and thus allowed.
    obtain ⟨hdefault, hnull⟩ : e.default = (e.asString e.default).map .string ∧
        (e.asString e.default = none → e.nullable = true) := by
      have hmay := he.default
      cases hdef : e.default with
      | none =>
        rw [hdef] at hmay
        exact ⟨rfl, fun _ => hmay⟩
      | some v =>
        have hget : e.get .default = some v := hdef
        have hholds : e.domain.Holds v := he.holds hget
        rw [hdomain] at hholds
        cases v with
        | string text => exact ⟨rfl, nofun⟩
        | _ => exact hholds.elim
    have hmove : e.toggleMove none = .set (e.asString e.default) := by
      show e.plainToggle = _
      unfold plainToggle
      rw [hdomain, hempty]
      rfl
    have halternate : alternate e.default e.value = (e.asString e.default).map .string := by
      rw [hempty, alternate_empty, ← hdefault]
    rw [toggle_of_toggleMove hmove, result_set_string hdomain hcheck hnull, halternate]
  · -- Null goes to the empty text as well, which no bound of a string keeps out.
    have hmove : e.toggleMove none = .set (some "") := by
      show e.plainToggle = _
      unfold plainToggle
      rw [hdomain]
      rcases hvalue : e.value with _ | (_ | _ | text | _ | _)
      case some.string =>
        have htext : text ≠ "" := fun h => hempty (by rw [hvalue, h])
        exact congrArg ToggleMove.set (if_neg htext)
      all_goals rfl
    have halternate : alternate e.default e.value = (some "").map .string := if_neg hempty
    rw [toggle_of_toggleMove hmove, halternate]
    exact result_set_string hdomain hcheck nofun

/-- How a boolean is toggled, where null counts as off. -/
structure Flips (e : Entry) : Prop where
  /-- No toggle is refused. -/
  succeeds : ∀ k, ∃ outcome, ((e.toggled none k).toggle none).result.2 = .ok outcome
  /-- From off it is on after each odd number of toggles, and only then. -/
  on_iff : Cell.asBoolean e.value = false →
    ∀ k, Cell.asBoolean (e.toggled none k).value = true ↔ k % 2 = 1
  /-- From on it is off after each odd number of toggles, and only then. -/
  off_iff : Cell.asBoolean e.value = true →
    ∀ k, Cell.asBoolean (e.toggled none k).value = false ↔ k % 2 = 1
  /-- It is not null any more. -/
  filled : ∀ k, (e.toggled none (k + 1)).value.isSome
  /-- Two further toggles make no difference. -/
  period : ∀ k, e.toggled none (k + 3) = e.toggled none (k + 1)

/-- How a string is toggled. Its default value may be null. -/
structure Alternates (e : Entry) : Prop where
  /-- No toggle is refused. -/
  succeeds : ∀ k, ∃ outcome, ((e.toggled none k).toggle none).result.2 = .ok outcome
  /-- From a value other than the empty text it is empty first, and then the default value. -/
  from_other : e.value ≠ some (.string "") → ∀ k,
    (e.toggled none (k + 1)).value = if k % 2 = 0 then some (.string "") else e.default
  /-- From the empty text it is the default value first. -/
  from_empty : e.value = some (.string "") → ∀ k,
    (e.toggled none (k + 1)).value = if k % 2 = 0 then e.default else some (.string "")
  /-- Two further toggles make no difference. -/
  period : ∀ k, e.toggled none (k + 3) = e.toggled none (k + 1)

/-- What a toggle needs to know of an option besides its value stays. -/
theorem toggled_kept (e : Entry) (candidates : Option (List String)) (k : Nat) :
    (e.toggled candidates k).domain = e.domain ∧ (e.toggled candidates k).check = e.check ∧
      (e.toggled candidates k).default = e.default := by
  obtain ⟨_, hk⟩ := toggled_frame e candidates k
  rw [hk]
  exact ⟨rfl, rfl, rfl⟩

/-- Toggled options that have the same value are the same. -/
theorem toggled_eq_of_value {j k : Nat}
    (h : (e.toggled candidates j).value = (e.toggled candidates k).value) :
    e.toggled candidates j = e.toggled candidates k := by
  obtain ⟨_, hj⟩ := toggled_frame e candidates j
  obtain ⟨_, hk⟩ := toggled_frame e candidates k
  rw [hj, hk] at h ⊢
  exact congrArg (fun value => { e with value }) h

/-- A truth value without a check flips with every toggle. -/
theorem flips_of_boolean (hdomain : e.domain = .boolean) (hcheck : e.check = none) : e.Flips := by
  have hstep (k : Nat) : ((e.toggled none k).toggle none).result =
      ({ e.toggled none k with
          value := some (.boolean (!Cell.asBoolean (e.toggled none k).value)) }, .ok .changed) := by
    obtain ⟨hdomain', hcheck', _⟩ := toggled_kept e none k
    exact result_toggle_boolean (hdomain'.trans hdomain) (hcheck'.trans hcheck)
  have hvalue (k : Nat) : (e.toggled none (k + 1)).value =
      some (.boolean (!Cell.asBoolean (e.toggled none k).value)) := by
    rw [toggled_succ, hstep]
  -- Each toggle negates the flag, so after an odd number of them it is the other one.
  have hflag (k : Nat) : Cell.asBoolean (e.toggled none k).value =
      (Cell.asBoolean e.value ^^ decide (k % 2 = 1)) := by
    induction k with
    | zero => simp [toggled, mutateAll]
    | succ k ih =>
      rw [hvalue]
      show (!Cell.asBoolean (e.toggled none k).value) = _
      rw [ih]
      rcases Nat.mod_two_eq_zero_or_one k with hk | hk
      · simp [hk, Nat.add_mod]
      · simp [hk, Nat.add_mod]
  refine ⟨fun k => ⟨_, congrArg Prod.snd (hstep k)⟩, fun hoff k => ?_, fun hon k => ?_,
    fun k => by rw [hvalue]; rfl, fun k => toggled_eq_of_value ?_⟩
  · rw [hflag, hoff]
    simp
  · rw [hflag, hon]
    simp
  · rw [hvalue (k + 2), hvalue k, hflag (k + 2), hflag k, Nat.add_mod_right]

/-- A string without a check goes to and fro between two values. -/
theorem alternates_of_string {lo hi : Int} (hdomain : e.domain = .string lo hi)
    (hcheck : e.check = none) (he : e.Sound) : e.Alternates := by
  have hstep (k : Nat) : ((e.toggled none k).toggle none).result =
      ({ e.toggled none k with
          value := alternate (e.toggled none k).default (e.toggled none k).value },
        .ok (if (e.toggled none k).value =
            alternate (e.toggled none k).default (e.toggled none k).value
          then .sameValue else .changed)) := by
    obtain ⟨hdomain', hcheck', _⟩ := toggled_kept e none k
    exact result_toggle_string (hdomain'.trans hdomain) (hcheck'.trans hcheck)
      (he.toggled none k)
  have hvalue (k : Nat) : (e.toggled none (k + 1)).value =
      alternate e.default (e.toggled none k).value := by
    rw [toggled_succ, hstep, (toggled_kept e none k).2.2]
  -- Two values that lead to each other take turns.
  have halternate {first second : Option Value} (hfirst : alternate e.default e.value = first)
      (hthere : alternate e.default first = second) (hback : alternate e.default second = first)
      (k : Nat) :
      (e.toggled none (k + 1)).value = if k % 2 = 0 then first else second := by
    induction k with
    | zero => exact (hvalue 0).trans hfirst
    | succ k ih =>
      rw [hvalue, ih]
      rcases Nat.mod_two_eq_zero_or_one k with hk | hk
      · rw [if_pos hk, if_neg (by omega), hthere]
      · rw [if_neg (by omega), if_pos (by omega), hback]
  have hother (h : e.value ≠ some (.string "")) :=
    halternate (if_neg h) (alternate_empty _) (alternate_default _)
  have hstart (h : e.value = some (.string "")) :=
    halternate (if_pos h) (alternate_default _) (alternate_empty _)
  refine ⟨fun k => ⟨_, congrArg Prod.snd (hstep k)⟩, hother, hstart,
    fun k => toggled_eq_of_value ?_⟩
  by_cases h : e.value = some (.string "")
  · rw [hstart h (k + 2), hstart h k, Nat.add_mod_right]
  · rw [hother h (k + 2), hother h k, Nat.add_mod_right]

end Entry

/-! ## Options of a registry -/

namespace Registry

variable {r : Registry} {e : Entry}

/-- Toggles go through candidates that suit an option. -/
theorem cyclesThrough_of_suits (hr : r.Reachable) (he : e ∈ r.entries) (hcheck : e.check = none)
    {cs : List String} (htwo : 2 ≤ cs.length) (hnodup : cs.Nodup) (hsuits : ∀ c ∈ cs, e.Suits c) :
    e.CyclesThrough cs :=
  Entry.Ready.cyclesThrough ⟨hr.sound he, hcheck, hnodup, htwo, hsuits⟩

/-- A run that makes three options that may be null: a boolean, a number and a text. -/
def switching : List Operation :=
  [.addFile "app", .addSection "app" { name := "look" },
    .edit "app" "look"
      (.define { name := "bold", kind := .boolean, nullable := true } fun _ =>
        .define { name := "depth", kind := .integer, hi := 9, value := some "7",
                  nullable := true } fun _ =>
          .define { name := "hint", kind := .string, value := some "x",
                    nullable := true } fun _ => .finish (.ok ()))]

/-- What `switching` leads to. -/
def switched : Registry :=
  (run switching { env := { dir := "/etc" } } {}).result.1

/-- A host can bring it about. -/
theorem reachable_switched : switched.Reachable := by
  unfold switched
  exact ⟨{ dir := "/etc" }, switching, {}, rfl⟩

/-- From the last candidate two toggles lead round the end, to the first one and on to null. -/
theorem cyclesThrough_of_suits_switched : ∃ e ∈ switched.entries, e.shown = "7" ∧
    e.CyclesThrough ["3", "null", "7"] ∧
      (e.toggled (some ["3", "null", "7"]) 2).value = none := by
  obtain ⟨e, he, hdomain, hnullable, hshown, hcheck⟩ : ∃ e ∈ switched.entries,
      e.domain = .integer 0 9 ∧ e.nullable = true ∧ e.shown = "7" ∧ e.check.isNone := by
    decide +kernel
  have hnone := Option.isNone_iff_eq_none.1 hcheck
  have hdigit {c : String} (hc : c ≠ nullText) (hrelative : ¬ (Domain.integer 0 9).IsRelative c)
      (hknown : (Numeral.int64? c).isSome)
      (hcanonical : (Domain.integer 0 9).format ((Domain.integer 0 9).convert c) = c) :
      e.Suits c := by
    rw [← hdomain] at hrelative hcanonical
    refine Entry.suits_of_knows hnone hc hrelative ?_ hcanonical
    rw [hdomain]
    exact hknown
  have hsuits : ∀ c ∈ ["3", "null", "7"], e.Suits c := by
    simp only [List.mem_cons, List.not_mem_nil, or_false, forall_eq_or_imp, forall_eq]
    refine ⟨?_, .null hnullable, ?_⟩
    · exact hdigit (by decide) (by decide) (by decide +kernel) (by decide +kernel)
    · exact hdigit (by decide) (by decide) (by decide +kernel) (by decide +kernel)
  have h := cyclesThrough_of_suits reachable_switched he hnone (by decide) (by decide) hsuits
  have hcycle := h.cycle 2 (by rw [hshown]; rfl) 2
  refine ⟨e, he, hshown, h, (h.null_iff 1).2 ?_⟩
  exact (Option.some.inj hcycle.1).symm

/-- Booleans and strings are toggled without candidates. -/
theorem flips_and_alternates (hr : r.Reachable) (he : e ∈ r.entries) (hcheck : e.check = none) :
    (e.domain.kind = .boolean → e.Flips) ∧ (e.domain.kind = .string → e.Alternates) := by
  refine ⟨fun hkind => ?_, fun hkind => ?_⟩
  · cases hdomain : e.domain with
    | boolean => exact Entry.flips_of_boolean hdomain hcheck
    | _ => rw [hdomain] at hkind; cases hkind
  · cases hdomain : e.domain with
    | string => exact Entry.alternates_of_string hdomain hcheck (hr.sound he)
    | _ => rw [hdomain] at hkind; cases hkind

/-- From null a boolean is on after each odd number of toggles. A text without a default value
changes between the empty one and null. -/
theorem flips_and_alternates_switched :
    (∃ e ∈ switched.entries, e.domain.kind = .boolean ∧ e.value = none ∧
      ∀ k, Cell.asBoolean (e.toggled none k).value = true ↔ k % 2 = 1) ∧
    ∃ e ∈ switched.entries, e.domain.kind = .string ∧ e.value = some (.string "x") ∧
      ∀ k, (e.toggled none (k + 1)).value = if k % 2 = 0 then some (.string "") else none := by
  constructor
  · obtain ⟨e, he, hkind, hvalue, hcheck⟩ : ∃ e ∈ switched.entries, e.domain.kind = .boolean ∧
        e.value = none ∧ e.check.isNone := by
      decide +kernel
    have h := (flips_and_alternates reachable_switched he
      (Option.isNone_iff_eq_none.1 hcheck)).1 hkind
    exact ⟨e, he, hkind, hvalue, h.on_iff (by rw [hvalue]; rfl)⟩
  · obtain ⟨e, he, hkind, hvalue, hdefault, hcheck⟩ : ∃ e ∈ switched.entries,
        e.domain.kind = .string ∧ e.value = some (.string "x") ∧ e.default = none ∧
          e.check.isNone := by
      decide +kernel
    have h := (flips_and_alternates reachable_switched he
      (Option.isNone_iff_eq_none.1 hcheck)).2 hkind
    have hother := h.from_other (by rw [hvalue]; decide)
    rw [hdefault] at hother
    exact ⟨e, he, hkind, hvalue, hother⟩

end Registry

end TypedConfig
