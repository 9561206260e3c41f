import TypedConfig.Address
import TypedConfig.Check
import TypedConfig.Event
import TypedConfig.Roster
import TypedConfig.Value

/-!
# Options

An option is a named cell with a value and a default value, either of which may be null where its
definition allows that. `Definition` is what a host says about an option, `Entry.ofDefinition?`
takes or refuses it, and the rest of the module reads an option's parts and values. How options
change is in `TypedConfig.Entry.Mutation`.
-/

namespace TypedConfig

/-- An option without its hooks: what a hook may look at. -/
structure Cell where
  file : String
  sectionName : String
  name : String
  /-- The path of the option that this one inherits from while its value is null. -/
  parent : Option String
  domain : Domain
  /-- The list of values from the definition, which only an enum has a use for. -/
  labels : List String
  description : String
  nullable : Bool
  default : Option Value
  value : Option Value

/-- A check sees an option and the text of a new value, or null, and accepts or vetoes it. -/
abbrev VetoCheck := Cell → Option String → Bool

/-- The place of an option in a registry, as positions at the three levels. -/
structure Location where
  file : Nat
  sectionName : Nat
  option : Nat
  deriving Repr, DecidableEq

/-- An option of a section. -/
structure Entry extends Cell where
  /-- The check that new values have to pass. -/
  check : Option VetoCheck
  /-- Whether its owner is told of changes. -/
  tellsChange : Bool
  /-- Whether its owner is told of its removal. -/
  tellsRemoval : Bool
  /-- Whether a line has reached the option since it was last marked as missing. -/
  loaded : Bool := true
  /-- Where its parent was found the last time, which may be out of date. -/
  knownParent : Option Location := none

instance : Named Entry := ⟨fun e => e.name⟩

/-- What a host says about an option. The texts of the values are read by `Domain.convert`. -/
structure Definition where
  /-- The name, which may declare a parent as in `child << file.section.parent`. -/
  name : String
  kind : Kind
  description : String := ""
  labels : List String := []
  lo : Int := 0
  hi : Int := 0
  default : Option String := none
  value : Option String := none
  nullable : Bool := false
  check : Option VetoCheck := none
  tellsChange : Bool := false
  tellsRemoval : Bool := false

namespace Definition

/-- What stands between an option's name and its parent's path. -/
def parentMark : String := " << "

/-- The name without the parent. -/
def plainName (d : Definition) : String :=
  match Text.cutString? parentMark d.name with
  | some (name, _) => name
  | none => d.name

/-- The path of the declared parent. -/
def parent (d : Definition) : Option String :=
  (Text.cutString? parentMark d.name).map (·.2)

/-- The labels that a text lists between bars; empty ones are dropped. -/
def labelsOfText (text : String) : List String :=
  (Text.splitString '|' text).filter (· ≠ "")

/-- The domain: an integer with labels is an enum, and a color's upper bound is the last of the
palette. -/
def domain (d : Definition) (palette : Palette) : Domain :=
  match d.kind with
  | .boolean => .boolean
  | .integer => if d.labels.isEmpty then .integer d.lo d.hi else .enum d.labels
  | .string => .string d.lo d.hi
  | .color => .color d.lo palette
  | .enum => .enum d.labels

/-- The text of the default value, which the value stands in for where null is not allowed. -/
def defaultText (d : Definition) : Option String :=
  if d.nullable then d.default else d.default.or d.value

/-- The text of the value, which the default value stands in for where null is not allowed. -/
def valueText (d : Definition) : Option String :=
  if d.nullable then d.value else d.value.or d.default

/-- What a definition has to meet: a name, variants or ordered bounds, and a value where null is
not allowed. -/
def checks (d : Definition) (palette : Palette) (field : String) : List (Option Problem) :=
  let domain := d.domain palette
  let range := match domain with
    | .enum variants => Check.hasEntries variants field
    | domain => Check.ordered domain.lo domain.hi field
  let filled := if d.nullable ∨ d.defaultText.isSome then none
    else some ⟨field, "needs a default value or a value when null is not allowed", none⟩
  [Check.notEmpty d.plainName field, range, filled]

end Definition

namespace Cell

/-- The address under which the option is found. -/
def address (c : Cell) : Address :=
  ⟨c.file, c.sectionName, c.name⟩

/-- The dotted path `file.section.option`. -/
def fullName (c : Cell) : String :=
  c.address.path

/-- The canonical text of the value. -/
def valueText (c : Cell) : Option String :=
  c.value.map c.domain.format

/-- The canonical text of the default value. -/
def defaultText (c : Cell) : Option String :=
  c.default.map c.domain.format

/-- The text that a file holds for the value. -/
def fileText (c : Cell) : Option String :=
  c.value.map c.domain.formatForFile

/-- Whether the value differs from the default value. -/
def hasChanged (c : Cell) : Bool :=
  c.value != c.default

/-- A value as a truth value: only the boolean true is true. -/
def asBoolean : Option Value → Bool
  | some (.boolean flag) => flag
  | _ => false

/-- A value as a number: ids, positions and truth values convert, all else is zero. -/
def asInteger : Option Value → Int
  | some (.boolean flag) => if flag then 1 else 0
  | some (.integer n) => n
  | some (.color id) => id
  | some (.enum index) => index
  | _ => 0

/-- A value as a color id, zero for all but colors. -/
def asColor : Option Value → Int
  | some (.color id) => id
  | _ => 0

/-- A value as a position, zero for all but enums. -/
def asEnum : Option Value → Nat
  | some (.enum index) => index
  | _ => 0

/-- A value of the option as a text: strings, variants and truth values have one. -/
def asString (c : Cell) : Option Value → Option String
  | some (.string text) => some text
  | some (.enum index) => c.labels[index]?
  | some (.boolean flag) => some (if flag then "on" else "off")
  | _ => none

end Cell

namespace Entry

/-- The option that a definition makes in a section of a file, unless it breaks a rule. -/
def ofDefinition? (file sectionName : String) (palette : Palette) (d : Definition) :
    Except Failure Entry := do
  let name := d.plainName
  let domain := d.domain palette
  Check.verify (d.checks palette (Address.path ⟨file, sectionName, name⟩))
  return {
    file, sectionName, name, domain
    parent := d.parent
    labels := d.labels
    description := d.description
    nullable := d.nullable
    default := d.defaultText.map domain.convert
    value := d.valueText.map domain.convert
    check := d.check
    tellsChange := d.tellsChange
    tellsRemoval := d.tellsRemoval }

/-- A definition that is taken meets its checks, and the option is what it says. -/
theorem eq_of_ofDefinition? {file sectionName : String} {palette : Palette} {d : Definition}
    {e : Entry} (h : ofDefinition? file sectionName palette d = .ok e) :
    (∀ check ∈ d.checks palette (Address.path ⟨file, sectionName, d.plainName⟩), check = none) ∧
      e = {
        file, sectionName
        name := d.plainName
        domain := d.domain palette
        parent := d.parent
        labels := d.labels
        description := d.description
        nullable := d.nullable
        default := d.defaultText.map (d.domain palette).convert
        value := d.valueText.map (d.domain palette).convert
        check := d.check
        tellsChange := d.tellsChange
        tellsRemoval := d.tellsRemoval } := by
  simp only [ofDefinition?, bind, Except.bind] at h
  split at h
  · contradiction
  · next hverify => exact ⟨Check.verify_eq_ok_iff.1 hverify, (Except.ok.inj h).symm⟩

/-- The event that publishes the current value. -/
def notification (e : Entry) : Event :=
  .notified e.fullName e.valueText

/-- The events of a change: the owner is told where it asked to be, then the value is published. -/
def changeEvents (e : Entry) : List Event :=
  (if e.tellsChange then [.changed e.fullName e.valueText] else []) ++ [e.notification]

/-- The events of a removal: the owner is told where it asked to be, then null is published. -/
def removalEvents (e : Entry) : List Event :=
  (if e.tellsRemoval then [.deleted e.fullName e.valueText] else []) ++ [.notified e.fullName none]

end Entry

end TypedConfig
