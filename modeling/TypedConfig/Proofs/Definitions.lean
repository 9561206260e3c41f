import TypedConfig.Proofs.Colors
import TypedConfig.Proofs.Naming
import TypedConfig.Roster.Exchange

/-!
# Which definitions a section takes

A section takes a definition if the option's name is free and visible, the bounds leave room for a
value, and there is a value where null is not allowed, and it refuses all others
(`Body.Accepts`). Then one option is added, which has the values that the texts of the definition
stand for, and this one is published (`Body.Gains`); a refused definition leaves no trace
(`Body.exists_define_iff_accepts`).

What the texts stand for is said text by text here: one that is missing is null, or what the other
one stands for, as null is allowed or not.
-/

namespace TypedConfig

namespace Definition

/-- How the name of a definition is read: what stands before the first mark of a parent is the name
of the option, and what stands behind it the path of the parent. -/
structure SplitsName (d : Definition) : Prop where
  whole : d.name = d.plainName ++ (d.parent.map (parentMark ++ ·)).getD ""
  first : ∀ before after, d.name = before ++ parentMark ++ after →
    d.parent.isSome ∧ d.plainName.length ≤ before.length

/-- The first mark of a parent divides every name. -/
theorem splitsName (d : Definition) : d.SplitsName := by
  cases h : Text.cutString? parentMark d.name with
  | none =>
    have hname : d.plainName = d.name := by rw [plainName, h]
    have hparent : d.parent = none := by rw [parent, h]; rfl
    constructor
    · rw [hname, hparent]
      exact (String.append_empty).symm
    · intro before after heq
      obtain ⟨b, a, hcut, -⟩ := Text.exists_cutString?_append before parentMark after
      rw [← heq, h] at hcut
      cases hcut
  | some parts =>
    obtain ⟨name, path⟩ := parts
    have hname : d.plainName = name := by rw [plainName, h]
    have hparent : d.parent = some path := by rw [parent, h]; rfl
    constructor
    · rw [Text.eq_append_of_cutString? h, hname, hparent]
      exact String.append_assoc ..
    · intro before after heq
      obtain ⟨b, a, hcut, hle⟩ := Text.exists_cutString?_append before parentMark after
      rw [← heq, h] at hcut
      rw [hname, hparent, (Prod.mk.inj (Option.some.inj hcut)).1]
      exact ⟨rfl, hle⟩

/-- The kind of the option: a list of values makes an integer an enum. -/
def promotedKind (d : Definition) : Kind :=
  if d.kind = .integer ∧ d.labels ≠ [] then .enum else d.kind

/-- The bounds leave room for a value. An enum has to list its variants, and an integer that lists
some is one. -/
def BoundsSound (d : Definition) (palette : Palette) : Prop :=
  match d.promotedKind with
  | .boolean => True
  | .integer | .string => d.lo ≤ d.hi
  | .color => d.lo ≤ (palette.size : Int) - 1
  | .enum => d.labels ≠ []

/-- There is a text for a value where null is not allowed. -/
def IsFilled (d : Definition) : Prop :=
  d.nullable = true ∨ d.default.isSome ∨ d.value.isSome

/-- The domain of a definition has room for a value if the bounds of the definition leave it. -/
theorem valid_domain_iff (d : Definition) (palette : Palette) :
    (d.domain palette).Valid ↔ d.BoundsSound palette := by
  unfold domain BoundsSound promotedKind Domain.Valid
  cases d.kind with
  | integer =>
    cases hlabels : d.labels with
    | nil => simp [Domain.lo, Domain.hi]
    | cons label labels => simp
  | boolean => simp [Domain.lo, Domain.hi]
  | _ => simp [Domain.lo, Domain.hi]

/-- The check on null looks for a default value: either text gives one where null is not allowed. -/
theorem isFilled_iff (d : Definition) :
    d.nullable = true ∨ d.defaultText.isSome ↔ d.IsFilled := by
  unfold defaultText IsFilled
  cases d.nullable with
  | true => simp
  | false => simp

end Definition

namespace Body

/-- What a definition has to be for a section to take it. -/
structure Accepts (b : Body) (d : Definition) : Prop where
  /-- No option has the name. -/
  free : ∀ e ∈ b.entries, e.name ≠ d.plainName
  visible : Visible d.plainName
  bounds : d.BoundsSound b.palette
  filled : d.IsFilled

/-- How a section comes to an option of a definition. -/
structure Gains (b : Body) (d : Definition) (x : Traced (Body × Except Failure Entry)) (e : Entry) :
    Prop where
  result : x.result.2 = .ok e
  /-- The option is added, and nothing else changes. -/
  added : ∃ entries, x.result.1 = { b with entries } ∧ entries.Perm (e :: b.entries)
  /-- Its canonical value is published, once. -/
  events : x.events = [.notified (b.path d.plainName) (e.value.map e.domain.format)]
  address : e.address = ⟨b.file, b.name, d.plainName⟩
  parent : e.parent = d.parent
  domain : e.domain = d.domain b.palette ∧ e.domain.kind = d.promotedKind
  nullable : e.nullable = d.nullable
  /-- A text that is given is converted. -/
  value_of_text : ∀ text, d.value = some text → e.value = some (e.domain.convert text)
  default_of_text : ∀ text, d.default = some text → e.default = some (e.domain.convert text)
  /-- One that is missing stands for null, or for what the other one stands for. -/
  value_of_none : d.value = none → e.value = if d.nullable then none else e.default
  default_of_none : d.default = none → e.default = if d.nullable then none else e.value

variable {b : Body} {d : Definition}

/-- A definition makes an option if its parts are as they should be, whatever there is in the
section. -/
theorem exists_ofDefinition?_iff (b : Body) (d : Definition) :
    (∃ e, Entry.ofDefinition? b.file b.name b.palette d = .ok e) ↔
      Visible d.plainName ∧ d.BoundsSound b.palette ∧ d.IsFilled := by
  constructor
  · rintro ⟨e, he⟩
    obtain ⟨hname, hvalid, hfilled⟩ := Entry.meets_checks_iff.1 (Entry.eq_of_ofDefinition? he).1
    exact ⟨visible_iff.2 hname, (d.valid_domain_iff _).1 hvalid, d.isFilled_iff.1 hfilled⟩
  · rintro ⟨hvisible, hbounds, hfilled⟩
    have hchecks : ∀ check ∈ d.checks b.palette (Address.path ⟨b.file, b.name, d.plainName⟩),
        check = none := by
      apply Entry.meets_checks_iff.2
      exact ⟨visible_iff.1 hvisible, (d.valid_domain_iff _).2 hbounds, d.isFilled_iff.2 hfilled⟩
    unfold Entry.ofDefinition?
    dsimp only
    rw [Check.verify_eq_ok_iff.2 hchecks]
    exact ⟨_, rfl⟩

/-- An option that a definition makes, under a free name, is what the section comes to. -/
theorem gains_of_ofDefinition? {e : Entry} (hfree : b.entry? d.plainName = none)
    (he : Entry.ofDefinition? b.file b.name b.palette d = .ok e) : b.Gains d (b.define d) e := by
  have hdefine : b.define d =
      ⟨[e.notification], { b with entries := Roster.insert e b.entries }, .ok e⟩ := by
    unfold define
    rw [hfree, he]
    rfl
  obtain ⟨-, rfl⟩ := Entry.eq_of_ofDefinition? he
  rw [hdefine]
  -- A text that is missing is the other one, or null where that is allowed.
  constructor
  case result => rfl
  case added => exact ⟨_, rfl, Roster.perm_insert ..⟩
  case events => rfl
  case address => rfl
  case parent => rfl
  case domain => exact ⟨rfl, d.kind_domain b.palette⟩
  case nullable => rfl
  case value_of_text =>
    intro text htext
    simp [Definition.valueText, htext]
  case default_of_text =>
    intro text htext
    simp [Definition.defaultText, htext]
  case value_of_none =>
    intro hnone
    cases hnull : d.nullable with
    | true => simp [Definition.valueText, hnone, hnull]
    | false => simp [Definition.valueText, Definition.defaultText, hnone, hnull]
  case default_of_none =>
    intro hnone
    cases hnull : d.nullable with
    | true => simp [Definition.defaultText, hnone, hnull]
    | false => simp [Definition.valueText, Definition.defaultText, hnone, hnull]

/-- A section takes the definitions that it accepts, and has nothing of the others. -/
theorem define_cases (b : Body) (d : Definition) :
    b.Accepts d ∧ (∃ e, b.Gains d (b.define d) e) ∨
      ¬b.Accepts d ∧ ∃ failure, b.define d = pure (b, .error failure) := by
  cases hname : b.entry? d.plainName with
  | some e =>
    right
    constructor
    · intro haccepts
      have hfree := Roster.find?_eq_none.2 haccepts.free
      rw [Body.entry?, hfree] at hname
      cases hname
    · refine ⟨.duplicate .option (b.path d.plainName), ?_⟩
      unfold define
      rw [hname]
      rfl
  | none =>
    cases hmade : Entry.ofDefinition? b.file b.name b.palette d with
    | ok e =>
      obtain ⟨hvisible, hbounds, hfilled⟩ := (b.exists_ofDefinition?_iff d).1 ⟨e, hmade⟩
      exact .inl ⟨⟨Roster.find?_eq_none.1 hname, hvisible, hbounds, hfilled⟩, e,
        gains_of_ofDefinition? hname hmade⟩
    | error failure =>
      right
      constructor
      · intro haccepts
        obtain ⟨e, he⟩ := (b.exists_ofDefinition?_iff d).2
          ⟨haccepts.visible, haccepts.bounds, haccepts.filled⟩
        rw [hmade] at he
        cases he
      · refine ⟨failure, ?_⟩
        unfold define
        rw [hname, hmade]
        rfl

/-- A section takes exactly the definitions that it accepts. Then it gains the option that the
definition says, and otherwise it stays as it is and nothing happens. -/
theorem exists_define_iff_accepts (b : Body) (d : Definition) :
    d.SplitsName ∧ ((∃ e, (b.define d).result.2 = .ok e) ↔ b.Accepts d) ∧
      (∀ e, (b.define d).result.2 = .ok e → b.Gains d (b.define d) e) ∧
      (¬b.Accepts d → ∃ failure, b.define d = pure (b, .error failure)) := by
  refine ⟨d.splitsName, ?_⟩
  rcases b.define_cases d with ⟨haccepts, e, hgains⟩ | ⟨hrefuses, failure, hdefine⟩
  · refine ⟨⟨fun _ => haccepts, fun _ => ⟨e, hgains.result⟩⟩, ?_, fun h => absurd haccepts h⟩
    intro e' he'
    obtain rfl : e = e' := Except.ok.inj (hgains.result.symm.trans he')
    exact hgains
  · have hnone (e : Entry) : (b.define d).result.2 ≠ .ok e := by
      rw [hdefine]
      nofun
    refine ⟨⟨?_, fun h => absurd h hrefuses⟩, fun e he => absurd he (hnone e), ?_⟩
    · rintro ⟨e, he⟩
      exact absurd he (hnone e)
    · exact fun _ => ⟨failure, hdefine⟩

/-- An integer that lists its values, with a parent and without a default value. -/
def pace : Definition where
  name := "pace << app.look.speed"
  kind := .integer
  labels := ["slow", "fast"]
  lo := 9
  value := some "fast"

/-- It makes an enum whose default value is its value, though the bounds leave no room for an
integer. Without its list it is refused. -/
theorem exists_define_pace :
    (∃ e, (bare.define pace).result.2 = .ok e ∧ e.name = "pace" ∧
      e.parent = some "app.look.speed" ∧ e.value = some (.enum 1) ∧ e.default = some (.enum 1) ∧
      (bare.define pace).events = [.notified "app.look.pace" (some "fast")]) ∧
    ∃ failure, bare.define { pace with labels := [] } = pure (bare, .error failure) := by
  have hname : pace.plainName = "pace" := by decide +kernel
  have hparent : pace.parent = some "app.look.speed" := by decide +kernel
  have haccepts : bare.Accepts pace := by
    constructor
    case free =>
      intro e he
      cases he
    case visible =>
      rw [hname]
      exact ⟨'p', by decide, by decide⟩
    case bounds => exact List.cons_ne_nil _ _
    case filled => exact .inr (.inr rfl)
  have hrefuses : ¬bare.Accepts { pace with labels := [] } := by
    intro h
    have hbounds : (9 : Int) ≤ 0 := h.bounds
    omega
  obtain ⟨-, hiff, hgains, -⟩ := exists_define_iff_accepts bare pace
  obtain ⟨e, he⟩ := hiff.2 haccepts
  have hgain := hgains e he
  have hdomain : e.domain = .enum ["slow", "fast"] := hgain.domain.1
  have hvalue : e.value = some (.enum 1) := by
    rw [hgain.value_of_text "fast" rfl, hdomain]
    rfl
  refine ⟨⟨e, he, ?_, ?_, hvalue, ?_, ?_⟩, ?_⟩
  · rw [← hname]
    exact congrArg Address.option hgain.address
  · rw [hgain.parent, hparent]
  · rw [hgain.default_of_none rfl, hvalue]
    rfl
  · rw [hgain.events, hname, hvalue, hdomain]
    rfl
  · exact (exists_define_iff_accepts bare { pace with labels := [] }).2.2.2 hrefuses

end Body

end TypedConfig
