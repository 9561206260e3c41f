import TypedConfig.Section

/-!
# What operations do to options and sections

Every operation on an option or on a section is a sequence of a few primitive changes. The relations
`Entry.Evolves` and `Body.Evolves` list these changes, each with the events that go with it, and say
that changes may follow one another. The lemmas of this module show, operation by operation, that
nothing else ever happens, scripts of hooks included (`Body.Evolves.script`); so an invariant of
options or sections is proved by one case for each primitive change. Files and registries follow in
`TypedConfig.Proofs.Evolution.Document` and `TypedConfig.Proofs.Evolution.Registry`.

In all of these relations the events stand between the state before and the state after.
-/

namespace TypedConfig

/-- Whether an event publishes a value. -/
def Event.isNotification : Event → Bool
  | .notified .. => true
  | _ => false

/-- No value is published. -/
def Silent (es : List Event) : Prop :=
  ∀ x ∈ es, x.isNotification = false

/-- No events publish nothing. -/
theorem silent_nil : Silent [] := by
  intro x hx
  cases hx

/-- An event that publishes no value publishes none by itself. -/
theorem silent_singleton {x : Event} (h : x.isNotification = false) : Silent [x] := by
  intro y hy
  rwa [List.mem_singleton.1 hy]

/-- Two parts that publish nothing publish nothing together. -/
theorem Silent.append {es fs : List Event} (he : Silent es) (hf : Silent fs) :
    Silent (es ++ fs) := by
  intro x hx
  rcases List.mem_append.1 hx with hx | hx
  · exact he x hx
  · exact hf x hx

/-- What becomes of an option that keeps its name. -/
inductive Entry.Evolves : Entry → List Event → Entry → Prop
  /-- Nothing, while no value is published. -/
  | silent (e : Entry) {es : List Event} (h : Silent es) : Evolves e es e
  /-- It is changed in one of the five ways. -/
  | mutate (e : Entry) (m : Mutation) : Evolves e (e.mutate m).events (e.mutate m).result.1
  /-- It is marked as reached or not. -/
  | mark (e : Entry) (loaded : Bool) : Evolves e [] { e with loaded }
  /-- The place of its parent is noted. -/
  | keepParent (e : Entry) (knownParent : Option Location) : Evolves e [] { e with knownParent }
  | trans {e f g : Entry} {es fs : List Event} :
    Evolves e es f → Evolves f fs g → Evolves e (es ++ fs) g

/-- What becomes of a section's options. -/
inductive Body.Evolves : Body → List Event → Body → Prop
  | silent (b : Body) {es : List Event} (h : Silent es) : Evolves b es b
  | define (b : Body) (d : Definition) : Evolves b (b.define d).events (b.define d).result.1
  | remove (b : Body) (name : String) : Evolves b (b.remove name).events (b.remove name).result.1
  | clear (b : Body) : Evolves b b.clear.events b.clear.result
  /-- The option of a name is changed. -/
  | change (b : Body) {name : String} {e e' : Entry} {es : List Event}
      (he : b.entry? name = some e) (h : e.Evolves es e') :
      Evolves b es { b with entries := Roster.replace name e' b.entries }
  /-- All options are changed, from the first to the last. -/
  | each (b : Body) (f : Entry → Traced Entry)
      (h : ∀ e : Entry, e.Evolves (f e).events (f e).result) :
      Evolves b (Traced.each f b.entries).events
        { b with entries := (Traced.each f b.entries).result }
  | trans {a b c : Body} {es fs : List Event} :
    Evolves a es b → Evolves b fs c → Evolves a (es ++ fs) c

/-- What becomes of a section, whose hooks are never exchanged. -/
def Section.Evolves (s : Section) (es : List Event) (s' : Section) : Prop :=
  s'.hooks = s.hooks ∧ s.toBody.Evolves es s'.toBody

/-! ## Options -/

namespace Entry.Evolves

/-- An option stays as it is. -/
theorem refl (e : Entry) : e.Evolves [] e :=
  .silent e silent_nil

/-- A value is set. -/
theorem set (e : Entry) (input : Option String) :
    e.Evolves (e.set input).events (e.set input).result.1 :=
  .mutate e (.set input)

/-- The default value becomes the value. -/
theorem reset (e : Entry) : e.Evolves e.reset.events e.reset.result.1 :=
  .mutate e .reset

end Entry.Evolves

/-! ## Bodies -/

namespace Body.Evolves

/-- A section stays as it is. -/
theorem refl (b : Body) : b.Evolves [] b :=
  .silent b silent_nil

/-- A function of an option is applied to the option of a name, if there is one. -/
theorem ofChange {α : Type} (b : Body) (name : String) (f : Entry → Traced (Entry × α))
    (h : ∀ e : Entry, e.Evolves (f e).events (f e).result.1) :
    b.Evolves (b.change name f).events (b.change name f).result.1 := by
  unfold Body.change
  split
  · exact refl b
  · next e he => exact trans (change b he (h e)) (refl _)

/-- An option of the section is changed. -/
theorem mutate (b : Body) (name : String) (m : Mutation) :
    b.Evolves (b.mutate name m).events (b.mutate name m).result.1 :=
  ofChange b name _ fun e => .mutate e m

/-- All options are marked as reached or not. -/
theorem mark (b : Body) (loaded : Bool) :
    b.Evolves [] { b with entries := b.entries.map fun e => { e with loaded } } := by
  have h := each b (fun e => pure { e with loaded }) fun e => .mark e loaded
  rw [Traced.each_pure] at h
  exact h

/-- A hook does nothing to a section but what the section's own functions do. -/
theorem script {α : Type} (script : Script α) (b : Body) :
    b.Evolves (script.run b).events (script.run b).result.1 := by
  -- Every step of a script is one function of the section, followed by the rest of the script.
  induction script generalizing b with
  | finish result => exact refl b
  | look next ih => exact ih b b
  | define d next ih => exact trans (define b d) (ih _ _)
  | remove name next ih => exact trans (remove b name) (ih _ _)
  | clear next ih => exact trans (clear b) (ih _)
  | mutate name m next ih => exact trans (mutate b name m) (ih _ _)

/-- A section keeps everything but its options. -/
theorem frame {b b' : Body} {es : List Event} (h : b.Evolves es b') :
    ∃ entries, b' = { b with entries } := by
  induction h with
  | silent | change | each | clear => exact ⟨_, rfl⟩
  | define b d =>
    unfold Body.define
    split
    · exact ⟨_, rfl⟩
    · split <;> exact ⟨_, rfl⟩
  | remove b name =>
    unfold Body.remove
    split <;> exact ⟨_, rfl⟩
  | trans _ _ ih ih' =>
    obtain ⟨_, rfl⟩ := ih
    obtain ⟨_, rfl⟩ := ih'
    exact ⟨_, rfl⟩

end Body.Evolves

/-! ## Sections -/

namespace Section.Evolves

/-- A section stays as it is, with its hooks. -/
theorem refl (s : Section) : s.Evolves [] s :=
  ⟨rfl, .refl _⟩

/-- A section stays as it is, while no value is published. -/
theorem silent (s : Section) {es : List Event} (h : Silent es) : s.Evolves es s :=
  ⟨rfl, .silent _ h⟩

/-- A section goes on from what it has become. -/
theorem trans {s t u : Section} {es fs : List Event} (h : s.Evolves es t) (h' : t.Evolves fs u) :
    s.Evolves (es ++ fs) u :=
  ⟨h'.1.trans h.1, h.2.trans h'.2⟩

/-- Something becomes of the options, and the hooks stay. -/
theorem ofBody {α : Type} (s : Section) (f : Body → Traced (Body × α))
    (h : s.toBody.Evolves (f s.toBody).events (f s.toBody).result.1) :
    s.Evolves (s.onBody f).events (s.onBody f).result.1 :=
  ⟨rfl, h.trans (.refl _)⟩

/-- A hook is at work on the section. -/
theorem script {α : Type} (s : Section) (script : Script α) :
    s.Evolves (s.runScript script).events (s.runScript script).result.1 :=
  ofBody s _ (.script script _)

/-- The hook that makes options is called. -/
theorem callCreate (s : Section) (hook : String → Option String → Script SetOutcome)
    (name : String) (value : Option String) :
    s.Evolves (s.callCreate hook name value).events (s.callCreate hook name value).result.1 :=
  (silent s (silent_singleton rfl)).trans (script s _)

/-- An option is made for a name, if there is a hook for that. -/
theorem create (s : Section) (name : String) (value : Option String) :
    s.Evolves (s.create name value).events (s.create name value).result.1 := by
  unfold Section.create
  split
  · exact callCreate s _ name value
  · exact refl s

/-- The own value of an option is taken away. -/
theorem unset (s : Section) (name : String) :
    s.Evolves (s.unset name).events (s.unset name).result.1 := by
  unfold Section.unset
  split
  · exact refl s
  · split
    · split
      · exact (silent s (silent_singleton rfl)).trans (script s _)
      · exact (ofBody s _ (.remove _ name)).trans (refl _)
    · exact (ofBody s _ (.mutate _ name .reset)).trans (refl _)

/-- A line of a file is applied. -/
theorem applyLine (s : Section) (name : String) (value : Option String) :
    s.Evolves (s.applyLine name value).events (s.applyLine name value).result.1 := by
  unfold Section.applyLine
  split
  · exact (silent s (silent_singleton rfl)).trans (script s _)
  · split
    -- A line that reaches an option sets its value and leaves the mark.
    · exact (ofBody s _ (.ofChange _ name _ fun e =>
        (Entry.Evolves.set e value).trans (.mark _ true))).trans (refl _)
    · split
      · exact callCreate s _ name value
      · exact refl s

/-- A section keeps its names. -/
theorem names_eq {s s' : Section} {es : List Event} (h : s.Evolves es s') :
    s'.file = s.file ∧ s'.name = s.name := by
  obtain ⟨entries, hbody⟩ := h.2.frame
  exact ⟨by rw [hbody], by rw [hbody]⟩

end Section.Evolves

end TypedConfig
