import TypedConfig.Entry

/-!
# Changing options

The five ways to change an option, as data (`Mutation`) and as functions. Each ends in
`Entry.store` or in a refusal. A store that makes a difference is followed by the events of a
change, one that makes none is not, and a refusal leaves the option as it was.
-/

namespace TypedConfig

/-- How a successful change ended. -/
inductive SetOutcome
  | changed | sameValue
  deriving Repr, DecidableEq

/-- How a successful removal of a value ended: nothing to do, back at the default, or gone. -/
inductive UnsetOutcome
  | noReset | reset | removed
  deriving Repr, DecidableEq

/-- The two values of an option. -/
inductive Slot
  | value | default
  deriving Repr, DecidableEq

/-- The ways to change an option; null is none. -/
inductive Mutation
  /-- The value as a text asks for. -/
  | set (value : Option String)
  /-- The default value as a text asks for. -/
  | setDefault (value : Option String)
  /-- The value becomes the default value. -/
  | reset
  /-- The value becomes null. -/
  | setNull
  /-- The value moves on, among candidates if there are any. -/
  | toggle (candidates : Option (List String))
  deriving Repr, DecidableEq

namespace Entry

/-- The value in a slot. -/
def get (e : Entry) : Slot → Option Value
  | .value => e.value
  | .default => e.default

/-- The option with another value in a slot. -/
def put (e : Entry) : Slot → Option Value → Entry
  | .value, v => { e with value := v }
  | .default, v => { e with default := v }

/-- What a change of an option gives: the option as it is afterwards, and the outcome. -/
abbrev Changing := Traced (Entry × Except Failure SetOutcome)

/-- The refusal of a text or of null. -/
def refuse (e : Entry) (text : Option String) : Changing :=
  pure (e, .error (.invalidValue e.fullName (text.getD nullText)))

/-- Puts a value into a slot. Only a difference is a change. -/
def store (e : Entry) (slot : Slot) (v : Option Value) : Changing :=
  if e.get slot = v then pure (e, .ok .sameValue)
  else do
    let e' := e.put slot v
    Traced.tell e'.changeEvents
    pure (e', .ok .changed)

/-- Puts null into a slot, where that is allowed. -/
def storeNull (e : Entry) (slot : Slot) : Changing :=
  if e.nullable then e.store slot none else e.refuse none

/-- Puts what a text asks for into a slot, where the domain has a value for it. -/
def storeText (e : Entry) (slot : Slot) (text : String) : Changing :=
  match e.domain.accept? (e.get slot) text with
  | some v => e.store slot (some v)
  | none => e.refuse (some text)

/-- Puts a text or null into a slot. -/
def storeInput (e : Entry) (slot : Slot) : Option String → Changing
  | some text => e.storeText slot text
  | none => e.storeNull slot

/-- Sets the value, after the option's check has accepted it. -/
def set (e : Entry) (input : Option String) : Changing :=
  match e.check with
  | none => e.storeInput .value input
  | some accepts => do
    let accepted := accepts e.toCell input
    Traced.tell [.checked e.fullName input accepted]
    if accepted then e.storeInput .value input else e.refuse input

/-- Sets the default value. The check is about values and is not asked. -/
def setDefault (e : Entry) (input : Option String) : Changing :=
  e.storeInput .default input

/-- Makes the default value the value. -/
def reset (e : Entry) : Changing :=
  match e.default with
  | some v => e.store .value (some v)
  | none => e.storeNull .value

/-- Makes the value null. -/
def setNull (e : Entry) : Changing :=
  e.storeNull .value

/-- Where a toggle leads. -/
inductive ToggleMove
  | refuse
  | reset
  | set (input : Option String)
  deriving Repr, DecidableEq

/-- The move without candidates: booleans flip, with null as off, strings go to the empty text and
from there to the default value, and other kinds do not move. -/
def plainToggle (e : Entry) : ToggleMove :=
  match e.domain, e.value with
  | .boolean, some (.boolean true) => .set (some "off")
  | .boolean, _ => .set (some "on")
  | .string .., some (.string text) => .set (if text = "" then e.asString e.default else some "")
  | .string .., _ => .set (some "")
  | _, _ => .refuse

/-- The text by which candidates know the value: null is known as `null`. -/
def shown (e : Entry) : String :=
  e.valueText.getD nullText

/-- The input that a candidate stands for. -/
def candidateInput (c : String) : Option String :=
  if c = nullText then none else some c

/-- The move among candidates: to the one after the current value, and to the first from the last
and from any other value. A single candidate that is the current value means a reset. -/
def candidateToggle (e : Entry) (candidates : List String) : ToggleMove :=
  match candidates with
  | [] => .refuse
  | first :: rest =>
    match candidates.idxOf? e.shown with
    | some i =>
      match candidates[i + 1]? with
      | some next => .set (candidateInput next)
      | none => if rest.isEmpty then .reset else .set (candidateInput first)
    | none => .set (candidateInput first)

/-- Where a toggle leads, with candidates or without. -/
def toggleMove (e : Entry) : Option (List String) → ToggleMove
  | none => e.plainToggle
  | some candidates => e.candidateToggle candidates

/-- Moves the value on, among candidates if there are any. -/
def toggle (e : Entry) (candidates : Option (List String)) : Changing :=
  match e.toggleMove candidates with
  | .refuse => e.refuse (some toggleWord)
  | .reset => e.reset
  | .set input => e.set input

/-- Changes an option in the given way. -/
def mutate (e : Entry) : Mutation → Changing
  | .set input => e.set input
  | .setDefault input => e.setDefault input
  | .reset => e.reset
  | .setNull => e.setNull
  | .toggle candidates => e.toggle candidates

end Entry

end TypedConfig
