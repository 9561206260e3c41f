import TypedConfig.Proofs.Evolution
import TypedConfig.Proofs.Values

/-!
# The values of an option

A mutation is refused or stores a value that the option offers: null, its default value, or what its
domain has for a text (`Entry.mutate_cases`). What holds of all values that the options of a domain
offer thus holds of the two values for good (`Entry.get_mutateAll`).

An option is sound (`Entry.Sound`) if it may hold the two values that it has. Definitions make sound
options (`Entry.sound_of_ofDefinition?`) and no change makes one unsound (`Entry.Evolves.sound`). A
change touches nothing but the two values, the mark and the parent's place
(`Entry.Evolves.frame`).
-/

namespace TypedConfig

namespace Entry

/-- Whether an option may hold a value: null where it allows that, and values of its domain. -/
def MayHold (e : Entry) : Option Value → Prop
  | none => e.nullable = true
  | some v => e.domain.Holds v

/-- The option may hold the values that it has. -/
structure Sound (e : Entry) : Prop where
  domain : e.domain.Valid
  value : e.MayHold e.value
  default : e.MayHold e.default

/-- The values that a change of an option may store. -/
inductive Offers (e : Entry) : Option Value → Prop
  /-- Null, where the option allows it. -/
  | null (h : e.nullable = true) : Offers e none
  /-- The default value. -/
  | default : Offers e e.default
  /-- What a text leads to. -/
  | accepted {current : Option Value} {text : String} {v : Value}
      (h : e.domain.accept? current text = some v) : Offers e (some v)

/-- A sound option may hold what it offers. -/
theorem Offers.mayHold {e : Entry} {v : Option Value} (h : e.Offers v) (he : e.Sound) :
    e.MayHold v := by
  cases h with
  | null hnull => exact hnull
  | default => exact he.default
  | accepted haccept => exact Domain.holds_of_accept? he.domain haccept

/-! ## Stores -/

/-- A store puts the value into the slot, whether that makes a difference or not. -/
theorem store_entry (e : Entry) (slot : Slot) (v : Option Value) :
    (e.store slot v).result.1 = e.put slot v := by
  unfold store
  split
  · next h =>
    subst h
    cases slot <;> rfl
  · rfl

/-- A store succeeds. -/
theorem store_isOk (e : Entry) (slot : Slot) (v : Option Value) :
    ∃ outcome, (e.store slot v).result.2 = .ok outcome := by
  unfold store
  split
  · exact ⟨_, rfl⟩
  · exact ⟨_, rfl⟩

/-- Null is refused or stored. -/
theorem storeNull_cases (e : Entry) (slot : Slot) :
    (∃ failure, e.storeNull slot = pure (e, .error failure)) ∨
      (e.nullable = true ∧ e.storeNull slot = e.store slot none) := by
  unfold storeNull
  split
  · next h => exact .inr ⟨h, rfl⟩
  · exact .inl ⟨_, rfl⟩

/-- An input is refused, or the value that it leads to is stored. -/
theorem storeInput_cases (e : Entry) (slot : Slot) (input : Option String) :
    (∃ failure, e.storeInput slot input = pure (e, .error failure)) ∨
      ∃ v, e.Offers v ∧ e.storeInput slot input = e.store slot v := by
  cases input with
  | none =>
    rcases storeNull_cases e slot with hrefused | ⟨hnull, hstored⟩
    · exact .inl hrefused
    · exact .inr ⟨none, .null hnull, hstored⟩
  | some text =>
    unfold storeInput storeText
    dsimp only
    split
    · next v hv => exact .inr ⟨some v, .accepted hv, rfl⟩
    · exact .inl ⟨_, rfl⟩

/-- A set is refused, or ends with the store of a value. -/
theorem set_cases (e : Entry) (input : Option String) :
    (∃ failure, (e.set input).result = (e, .error failure)) ∨
      ∃ v, e.Offers v ∧ (e.set input).result = (e.store .value v).result := by
  have stored : (∃ failure, (e.storeInput .value input).result = (e, .error failure)) ∨
      ∃ v, e.Offers v ∧ (e.storeInput .value input).result = (e.store .value v).result := by
    rcases storeInput_cases e .value input with ⟨failure, hrefused⟩ | ⟨v, hv, hstored⟩
    · exact .inl ⟨failure, by rw [hrefused]; rfl⟩
    · exact .inr ⟨v, hv, by rw [hstored]⟩
  unfold set
  split
  · exact stored
  · simp only [Traced.result_bind]
    split
    · exact stored
    · exact .inl ⟨_, rfl⟩

/-- A reset is refused, or a store of the default value. -/
theorem reset_cases (e : Entry) :
    (∃ failure, e.reset = pure (e, .error failure)) ∨ e.reset = e.store .value e.default := by
  unfold reset
  split
  · next v hv => exact .inr (by rw [hv])
  · next hnone =>
    rw [hnone]
    exact (storeNull_cases e .value).imp_right And.right

/-- A mutation is refused, or ends with the store of a value that the option offers. -/
theorem mutate_cases (e : Entry) (m : Mutation) :
    (∃ failure, (e.mutate m).result = (e, .error failure)) ∨
      ∃ slot v, e.Offers v ∧ (e.mutate m).result = (e.store slot v).result := by
  -- A toggle ends in a refusal, a reset or a set, so these two come first.
  have hset (input : Option String) : (∃ failure, (e.set input).result = (e, .error failure)) ∨
      ∃ slot v, e.Offers v ∧ (e.set input).result = (e.store slot v).result := by
    rcases set_cases e input with hrefused | ⟨v, hv, hstored⟩
    · exact .inl hrefused
    · exact .inr ⟨.value, v, hv, hstored⟩
  have hreset : (∃ failure, e.reset.result = (e, .error failure)) ∨
      ∃ slot v, e.Offers v ∧ e.reset.result = (e.store slot v).result := by
    rcases reset_cases e with ⟨failure, hrefused⟩ | hstored
    · exact .inl ⟨failure, congrArg Traced.result hrefused⟩
    · exact .inr ⟨.value, e.default, .default, congrArg Traced.result hstored⟩
  unfold mutate
  split
  · exact hset _
  · next input =>
    rcases storeInput_cases e .default input with ⟨failure, hrefused⟩ | ⟨v, hv, hstored⟩
    · exact .inl ⟨failure, congrArg Traced.result hrefused⟩
    · exact .inr ⟨.default, v, hv, congrArg Traced.result hstored⟩
  · exact hreset
  · rcases storeNull_cases e .value with ⟨failure, hrefused⟩ | ⟨hnull, hstored⟩
    · exact .inl ⟨failure, congrArg Traced.result hrefused⟩
    · exact .inr ⟨.value, none, .null hnull, congrArg Traced.result hstored⟩
  · unfold toggle
    split
    · exact .inl ⟨_, rfl⟩
    · exact hreset
    · exact hset _

/-- A property of all values that texts lead to, which both values have, is one of both values after
a mutation. -/
theorem get_mutate {e : Entry} {P : Value → Prop}
    (haccept : ∀ current text v, e.domain.accept? current text = some v → P v)
    (he : ∀ slot v, e.get slot = some v → P v) (m : Mutation) :
    ∀ slot v, (e.mutate m).result.1.get slot = some v → P v := by
  rcases mutate_cases e m with ⟨failure, hrefused⟩ | ⟨slot, new, hoffers, hstored⟩
  · rw [hrefused]
    exact he
  · -- A stored default value has the property already, and null has nothing to show.
    have hnew : ∀ v, new = some v → P v := by
      cases hoffers with
      | null => exact nofun
      | default => exact he .default
      | accepted h => exact fun v hv => haccept _ _ v (Option.some.inj hv ▸ h)
    rw [hstored, store_entry]
    -- The slot that is stored to holds the new value, the other one what it held before.
    rintro (_ | _) <;> cases slot
    · exact hnew
    · exact he .value
    · exact he .default
    · exact hnew

/-! ## What a set leads to -/

/-- The value that an input asks for, where neither the check nor the domain refuses it. -/
def valueFor? (e : Entry) (input : Option String) : Option (Option Value) :=
  if e.check.all fun accepts => accepts e.toCell input then
    match input with
    | none => if e.nullable then some none else none
    | some text => (e.domain.accept? e.value text).map some
  else none

/-- A set gives the option the value that its input asks for, and leaves it as it is where the input
is refused. -/
theorem set_entry (e : Entry) (input : Option String) :
    (e.set input).result.1 = e.put .value ((e.valueFor? input).getD e.value) := by
  have hinput : (e.storeInput .value input).result.1 = e.put .value ((match input with
      | none => if e.nullable then some none else none
      | some text => (e.domain.accept? e.value text).map some).getD e.value) := by
    cases input with
    | none =>
      simp only [storeInput, storeNull]
      split
      · exact store_entry e .value none
      · rfl
    | some text =>
      simp only [storeInput, storeText]
      have hget : e.get .value = e.value := rfl
      rw [hget]
      cases e.domain.accept? e.value text with
      | none => rfl
      | some v => exact store_entry e .value (some v)
  -- The check, if there is one, stands before the domain and may refuse on its own.
  cases hcheck : e.check with
  | none =>
    simp only [set, valueFor?, hcheck, Option.all_none, if_true]
    exact hinput
  | some accepts =>
    simp only [set, valueFor?, hcheck, Option.all_some, Traced.result_bind]
    by_cases haccepts : accepts e.toCell input = true
    · rw [if_pos haccepts, if_pos haccepts]
      exact hinput
    · rw [if_neg haccepts, if_neg haccepts]
      rfl

/-- Without a check a set stores what the domain has for the text. -/
theorem set_of_accept? {e : Entry} (hcheck : e.check = none) {text : String} {v : Value}
    (h : e.domain.accept? e.value text = some v) : e.set (some text) = e.store .value (some v) := by
  have hget : e.get .value = e.value := rfl
  unfold set
  rw [hcheck]
  simp only [storeInput, storeText, hget, h]

/-- Without a check a set refuses a text for which the domain has nothing. -/
theorem set_of_accept?_eq_none {e : Entry} (hcheck : e.check = none) {text : String}
    (h : e.domain.accept? e.value text = none) : e.set (some text) = e.refuse (some text) := by
  have hget : e.get .value = e.value := rfl
  unfold set
  rw [hcheck]
  simp only [storeInput, storeText, hget, h]

/-- The option after inputs were set, one after the other. -/
def setAll (e : Entry) (inputs : List (Option String)) : Entry :=
  inputs.foldl (fun e input => (e.set input).result.1) e

/-- Sets change the value and nothing else. -/
theorem setAll_eq (e : Entry) (inputs : List (Option String)) :
    e.setAll inputs = { e with value := (e.setAll inputs).value } := by
  induction inputs generalizing e with
  | nil => rfl
  | cons input inputs ih =>
    show (e.set input).result.1.setAll inputs =
      { e with value := ((e.set input).result.1.setAll inputs).value }
    rw [set_entry]
    exact ih _

/-- What sets lead to does not depend on the mark. -/
theorem setAll_loaded (e : Entry) (loaded : Bool) (inputs : List (Option String)) :
    { e with loaded }.setAll inputs = { e.setAll inputs with loaded } := by
  induction inputs generalizing e with
  | nil => rfl
  | cons input inputs ih =>
    show ({ e with loaded : Entry }.set input).result.1.setAll inputs =
      { (e.set input).result.1.setAll inputs with loaded }
    rw [← ih, set_entry, set_entry]
    rfl

/-- The option after a line of its own, which counts as reached even if it refuses the value. -/
def reach (e : Entry) (input : Option String) : Entry :=
  { (e.set input).result.1 with loaded := true }

/-- Lines set their values, and the first of them leaves its mark. -/
theorem foldl_reach (e : Entry) (inputs : List (Option String)) :
    inputs.foldl reach e = { e.setAll inputs with loaded := e.loaded || !inputs.isEmpty } := by
  induction inputs generalizing e with
  | nil =>
    show e = { e with loaded := e.loaded || false }
    rw [Bool.or_false]
  | cons input inputs ih =>
    rw [List.foldl_cons, ih]
    show { ({ (e.set input).result.1 with loaded := true } : Entry).setAll inputs with
        loaded := true || !inputs.isEmpty } =
      { (e.set input).result.1.setAll inputs with loaded := e.loaded || true }
    rw [setAll_loaded, Bool.true_or, Bool.or_true]

/-! ## Soundness -/

/-- A value that the option may hold can be put into a slot. -/
theorem Sound.put {e : Entry} (h : e.Sound) {v : Option Value} (hv : e.MayHold v) (slot : Slot) :
    (e.put slot v).Sound := by
  cases slot with
  | value => exact ⟨h.domain, hv, h.default⟩
  | default => exact ⟨h.domain, h.value, hv⟩

/-- A sound option stays sound. -/
theorem Sound.mutate {e : Entry} (h : e.Sound) (m : Mutation) : (e.mutate m).result.1.Sound := by
  rcases mutate_cases e m with ⟨failure, hrefused⟩ | ⟨slot, v, hv, hstored⟩
  · rw [hrefused]
    exact h
  · rw [hstored, store_entry]
    exact h.put (hv.mayHold h) slot

/-- A sound option can be reset. -/
theorem Sound.reset_eq_store {e : Entry} (h : e.Sound) : e.reset = e.store .value e.default := by
  have hdefault := h.default
  unfold reset
  split
  · next v hv => rw [hv]
  · next hnone =>
    rw [hnone] at hdefault ⊢
    have hnull : e.nullable = true := hdefault
    unfold storeNull
    rw [if_pos hnull]

/-- A definition meets its checks if its name is not blank, its bounds are valid, and there is a
value where it needs one; and only then. -/
theorem meets_checks_iff {d : Definition} {palette : Palette} {field : String} :
    (∀ check ∈ d.checks palette field, check = none) ↔
      Text.isBlankText d.plainName = false ∧ (d.domain palette).Valid ∧
        (d.nullable = true ∨ d.defaultText.isSome) := by
  unfold Definition.checks
  simp only [List.forall_mem_cons, List.not_mem_nil, false_imp_iff, implies_true, and_true]
  refine and_congr ?_ (and_congr ?_ ?_)
  · simp [Check.notEmpty]
  · generalize d.domain palette = domain
    unfold Domain.Valid
    cases domain with
    | enum variants => simp [Check.hasEntries]
    | _ => simp [Check.ordered]
  · constructor
    · intro hnone
      refine Decidable.byContradiction fun hmissing => ?_
      rw [if_neg hmissing] at hnone
      cases hnone
    · exact fun hfilled => if_pos hfilled

/-- Where null is not allowed, the default value and the value stand in for one another. -/
theorem filled_value {d : Definition} (h : d.nullable = true ∨ d.defaultText.isSome) :
    d.nullable = true ∨ d.valueText.isSome := by
  cases hnull : d.nullable with
  | true => exact .inl rfl
  | false =>
    simp only [Definition.defaultText, Definition.valueText, hnull, Bool.false_eq_true, if_false,
      false_or, Option.isSome_or, Bool.or_eq_true] at h ⊢
    exact h.symm

/-- What a definition makes is sound, and its name is not blank. -/
theorem sound_of_ofDefinition? {file sectionName : String} {palette : Palette} {d : Definition}
    {e : Entry} (h : ofDefinition? file sectionName palette d = .ok e) :
    e.Sound ∧ e.file = file ∧ e.sectionName = sectionName ∧ e.name = d.plainName ∧
      Text.isBlankText e.name = false := by
  obtain ⟨hchecks, rfl⟩ := eq_of_ofDefinition? h
  obtain ⟨hname, hvalid, hfilled⟩ := meets_checks_iff.1 hchecks
  have mayHold {text : Option String} (htext : d.nullable = true ∨ text.isSome) :
      match text.map (d.domain palette).convert with
      | none => d.nullable = true
      | some v => (d.domain palette).Holds v := by
    cases text with
    | none => exact htext.resolve_right (by simp)
    | some text => exact Domain.holds_convert hvalid text
  refine ⟨⟨hvalid, ?_, ?_⟩, rfl, rfl, rfl, hname⟩
  · exact mayHold (filled_value hfilled)
  · exact mayHold hfilled

/-- What a definition makes counts as reached. -/
theorem loaded_of_ofDefinition? {file sectionName : String} {palette : Palette} {d : Definition}
    {e : Entry} (h : ofDefinition? file sectionName palette d = .ok e) : e.loaded = true := by
  obtain ⟨-, rfl⟩ := eq_of_ofDefinition? h
  rfl

/-- What becomes of a sound option is sound. -/
theorem Evolves.sound {e e' : Entry} {es : List Event} (h : e.Evolves es e') (he : e.Sound) :
    e'.Sound := by
  induction h with
  | silent => exact he
  | mutate e m => exact he.mutate m
  | mark => exact ⟨he.domain, he.value, he.default⟩
  | keepParent => exact ⟨he.domain, he.value, he.default⟩
  | trans _ _ ih ih' => exact ih' (ih he)

/-! ## What stays -/

/-- A mutation changes the two values and nothing else. -/
theorem mutate_frame (e : Entry) (m : Mutation) :
    ∃ value default, (e.mutate m).result.1 = { e with value, default } := by
  rcases mutate_cases e m with ⟨failure, hrefused⟩ | ⟨slot, v, _, hstored⟩
  · exact ⟨e.value, e.default, by rw [hrefused]⟩
  · rw [hstored, store_entry]
    cases slot with
    | value => exact ⟨v, e.default, rfl⟩
    | default => exact ⟨e.value, v, rfl⟩

/-- The option after mutations, one after the other. -/
def mutateAll (e : Entry) (ms : List Mutation) : Entry :=
  ms.foldl (fun e m => (e.mutate m).result.1) e

/-- Mutations change the two values and nothing else. -/
theorem mutateAll_frame (e : Entry) (ms : List Mutation) :
    ∃ value default, e.mutateAll ms = { e with value, default } := by
  induction ms generalizing e with
  | nil => exact ⟨e.value, e.default, rfl⟩
  | cons m ms ih =>
    obtain ⟨_, _, hm⟩ := mutate_frame e m
    obtain ⟨value, default, hms⟩ := ih (e.mutate m).result.1
    refine ⟨value, default, ?_⟩
    show (e.mutate m).result.1.mutateAll ms = _
    rw [hms, hm]

/-- A property of all values that texts lead to, which both values have, is one of both values
after mutations. -/
theorem get_mutateAll {e : Entry} {P : Value → Prop}
    (haccept : ∀ current text v, e.domain.accept? current text = some v → P v)
    (he : ∀ slot v, e.get slot = some v → P v) (ms : List Mutation) :
    ∀ slot v, (e.mutateAll ms).get slot = some v → P v := by
  induction ms generalizing e with
  | nil => exact he
  | cons m ms ih =>
    have hdomain : (e.mutate m).result.1.domain = e.domain := by
      obtain ⟨_, _, hm⟩ := mutate_frame e m
      rw [hm]
    exact ih (hdomain ▸ haccept) (get_mutate haccept he m)

/-- What is no value, mark or place stays as it was. -/
theorem Evolves.frame {e e' : Entry} {es : List Event} (h : e.Evolves es e') :
    ∃ value default loaded knownParent,
      e' = { e with value, default, loaded, knownParent } := by
  induction h with
  | silent e => exact ⟨_, _, _, _, rfl⟩
  | mutate e m =>
    obtain ⟨value, default, hresult⟩ := mutate_frame e m
    exact ⟨value, default, e.loaded, e.knownParent, hresult⟩
  | mark e loaded => exact ⟨_, _, loaded, _, rfl⟩
  | keepParent e knownParent => exact ⟨_, _, _, knownParent, rfl⟩
  | trans _ _ ih ih' =>
    obtain ⟨_, _, _, _, rfl⟩ := ih
    obtain ⟨_, _, _, _, rfl⟩ := ih'
    exact ⟨_, _, _, _, rfl⟩

end Entry

end TypedConfig
