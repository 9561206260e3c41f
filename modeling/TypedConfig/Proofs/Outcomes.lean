import TypedConfig.Proofs.Options

/-!
# What the outcome of a change says

The outcome is all that the caller of a change learns, and the events are all that a listener
learns. Both are right (`Entry.Settles`): a change is reported exactly where the slot of the
mutation ends up different, one notification goes with it, and after any other outcome the option
is as it was and no listener has heard of it. All five mutations end in `Entry.store`, in a refusal
or in one of these after a question to the check, so there is one lemma for each of these ends.
-/

namespace TypedConfig

/-- The slot that a mutation is about. -/
def Mutation.slot : Mutation → Slot
  | .setDefault _ => .default
  | _ => .value

namespace Entry

/-- A slot holds what was put into it. -/
@[simp] theorem get_put (e : Entry) (slot : Slot) (v : Option Value) :
    (e.put slot v).get slot = v := by
  cases slot <;> rfl

/-- The path does not depend on the slots. -/
@[simp] theorem fullName_put (e : Entry) (slot : Slot) (v : Option Value) :
    (e.put slot v).fullName = e.fullName := by
  cases slot <;> rfl

/-- Nor does it depend on them who is told of a change. -/
@[simp] theorem tellsChange_put (e : Entry) (slot : Slot) (v : Option Value) :
    (e.put slot v).tellsChange = e.tellsChange := by
  cases slot <;> rfl

/-! ## The question to the check -/

/-- The input that a mutation puts to the check. Only a set asks, on its own or in a toggle. -/
def asked? (e : Entry) : Mutation → Option (Option String)
  | .set input => some input
  | .toggle candidates =>
    match e.toggleMove candidates with
    | .set input => some input
    | _ => none
  | _ => none

/-- The event of a question to the check, where there is a check. -/
def inquiry (e : Entry) (input : Option String) : List Event :=
  match e.check with
  | some accepts => [.checked e.fullName input (accepts e.toCell input)]
  | none => []

/-- The events of what a mutation asks the check. -/
def inquiries (e : Entry) (m : Mutation) : List Event :=
  match e.asked? m with
  | some input => e.inquiry input
  | none => []

/-! ## Outcomes -/

/-- A change of a slot whose outcome and events are right. What the check was asked comes first. -/
structure Settles (e : Entry) (slot : Slot) (asked : List Event) (x : Changing) : Prop where
  /-- A change is reported exactly where the slot ends up different. -/
  changed_iff : x.result.2 = .ok .changed ↔ x.result.1.get slot ≠ e.get slot
  /-- A change is one of the slot and of nothing else. -/
  changed_entry : x.result.2 = .ok .changed → x.result.1 = e.put slot (x.result.1.get slot)
  /-- The owner hears of a change if it asked to, and then everyone does, both once. -/
  changed_events : x.result.2 = .ok .changed →
    x.events = asked ++
      (if e.tellsChange then [.changed e.fullName x.result.1.valueText] else []) ++
      [.notified e.fullName x.result.1.valueText]
  /-- After any other outcome the option is as it was. -/
  unchanged_entry : x.result.2 ≠ .ok .changed → x.result.1 = e
  /-- After any other outcome nobody hears of anything. -/
  unchanged_events : x.result.2 ≠ .ok .changed → x.events = asked

/-- The option stays as it is, and no change is reported. -/
theorem settles_kept (e : Entry) (slot : Slot) {outcome : Except Failure SetOutcome}
    (h : outcome ≠ .ok .changed) : e.Settles slot [] (pure (e, outcome)) where
  changed_iff := iff_of_false h fun hne => hne rfl
  changed_entry hchanged := absurd hchanged h
  changed_events hchanged := absurd hchanged h
  unchanged_entry _ := rfl
  unchanged_events _ := rfl

/-- A refusal is right. -/
theorem settles_refuse (e : Entry) (slot : Slot) (text : Option String) :
    e.Settles slot [] (e.refuse text) :=
  settles_kept e slot (by simp)

/-- A value that is stored is a change where the slot held another one. -/
theorem settles_store (e : Entry) (slot : Slot) (v : Option Value) :
    e.Settles slot [] (e.store slot v) := by
  unfold store
  split
  · exact settles_kept e slot (by simp)
  · next hne =>
    exact {
      changed_iff := iff_of_true rfl (by simpa using Ne.symm hne)
      changed_entry := fun _ => by simp
      changed_events := fun _ => by simp [changeEvents, notification]
      unchanged_entry := fun h => absurd rfl h
      unchanged_events := fun h => absurd rfl h }

/-- Null is stored where it is allowed, and refused elsewhere. -/
theorem settles_storeNull (e : Entry) (slot : Slot) : e.Settles slot [] (e.storeNull slot) := by
  unfold storeNull
  split
  · exact settles_store e slot none
  · exact settles_refuse e slot none

/-- An input is stored if it stands for a value, and refused elsewhere. -/
theorem settles_storeInput (e : Entry) (slot : Slot) (input : Option String) :
    e.Settles slot [] (e.storeInput slot input) := by
  cases input with
  | none => exact settles_storeNull e slot
  | some text =>
    unfold storeInput storeText
    dsimp only
    split
    · next v _ => exact settles_store e slot (some v)
    · exact settles_refuse e slot (some text)

/-- A question to the check comes before all that a listener hears. -/
theorem Settles.ask {e : Entry} {slot : Slot} {x : Changing} (h : e.Settles slot [] x)
    (asked : List Event) :
    e.Settles slot asked (do Traced.tell asked; x) where
  changed_iff := h.changed_iff
  changed_entry := h.changed_entry
  changed_events hchanged := by
    have hevents := h.changed_events hchanged
    simp only [Traced.events_bind, Traced.events_tell, Traced.result_bind, List.append_assoc,
      List.nil_append] at hevents ⊢
    rw [hevents]
  unchanged_entry := h.unchanged_entry
  unchanged_events hne := by
    have hevents := h.unchanged_events hne
    simp [hevents]

/-- A reset stores the default value, which may be null. -/
theorem settles_reset (e : Entry) : e.Settles .value [] e.reset := by
  unfold reset
  split
  · next v _ => exact settles_store e .value (some v)
  · exact settles_storeNull e .value

/-- A set asks the check, and stores the input if this agrees. -/
theorem settles_set (e : Entry) (input : Option String) :
    e.Settles .value (e.inquiry input) (e.set input) := by
  cases hcheck : e.check with
  | none =>
    simp only [set, inquiry, hcheck]
    exact settles_storeInput e .value input
  | some accepts =>
    simp only [set, inquiry, hcheck]
    apply Settles.ask
    split
    · exact settles_storeInput e .value input
    · exact settles_refuse e .value input

/-- The outcome and the events of every mutation are right. -/
theorem settles_mutate (e : Entry) (m : Mutation) :
    e.Settles m.slot (e.inquiries m) (e.mutate m) := by
  cases m with
  | set input => exact settles_set e input
  | setDefault input => exact settles_storeInput e .default input
  | reset => exact settles_reset e
  | setNull => exact settles_storeNull e .value
  | toggle candidates =>
    simp only [mutate, Mutation.slot, inquiries, asked?, toggle]
    cases e.toggleMove candidates with
    | refuse => exact settles_refuse e .value (some toggleWord)
    | reset => exact settles_reset e
    | set input => exact settles_set e input

/-! ## Vetoes -/

/-- A set whose input the check vetoes is refused. -/
theorem set_of_veto {e : Entry} {accepts : VetoCheck} {input : Option String}
    (hcheck : e.check = some accepts) (hveto : accepts e.toCell input = false) :
    (e.set input).result.2 = .error (.invalidValue e.fullName (input.getD nullText)) := by
  simp [set, hcheck, hveto, refuse]

/-- A mutation that puts an input to the check ends as the set of that input does. -/
theorem mutate_of_asked {e : Entry} {m : Mutation} {input : Option String}
    (h : e.asked? m = some input) : e.mutate m = e.set input := by
  -- Only a set asks, and a toggle that leads to one.
  cases m with
  | set asked =>
    obtain rfl : asked = input := by simpa [asked?] using h
    rfl
  | toggle candidates =>
    simp only [mutate, toggle]
    simp only [asked?] at h
    cases hmove : e.toggleMove candidates with
    | set asked =>
      obtain rfl : asked = input := by simpa [hmove] using h
      rfl
    | _ => simp [hmove] at h
  | _ => simp [asked?] at h

/-- Whatever the option and the mutation, the outcome and the events are right, and what the check
vetoes is refused. -/
theorem mutate_outcome (e : Entry) (m : Mutation) :
    e.Settles m.slot (e.inquiries m) (e.mutate m) ∧
      ∀ accepts input, e.check = some accepts → e.asked? m = some input →
        accepts e.toCell input = false →
        (e.mutate m).result.2 = .error (.invalidValue e.fullName (input.getD nullText)) := by
  refine ⟨settles_mutate e m, fun accepts input hcheck hasked hveto => ?_⟩
  rw [mutate_of_asked hasked]
  exact set_of_veto hcheck hveto

end Entry

end TypedConfig
