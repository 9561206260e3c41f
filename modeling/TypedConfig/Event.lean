import TypedConfig.Text.Numeral

/-!
# Events

What the engine lets the world know while it works: the changes it publishes, the hooks it calls,
the messages for the user and the records for a log. An operation is a function that returns its
result together with its events, oldest first (`Traced`); nothing is lost when operations are
chained (`Traced.events_bind`).
-/

namespace TypedConfig

/-- How grave a log record is. -/
inductive Level
  | error | warn | info | debug
  deriving Repr, DecidableEq

/-- The word for a level. -/
def Level.word : Level → String
  | .error => "error"
  | .warn => "warn"
  | .info => "info"
  | .debug => "debug"

/-- Who speaks in a log record: the engine itself, or the console that it hands messages to. -/
inductive Source
  | engine | console
  deriving Repr, DecidableEq

/-- The word for a source. -/
def Source.word : Source → String
  | .engine => "engine"
  | .console => "console"

/-- A line of a file on its way through a migration: a section header has no option. -/
structure LineData where
  config : String
  versionRead : Nat
  sectionName : String
  option : Option String
  value : Option String
  deriving Repr, DecidableEq

/-- The events, each with the data that is known when it happens. -/
inductive Event
  /-- The option at a path now has this canonical value, or is gone. -/
  | notified (path : String) (value : Option String)
  /-- An option's check was asked about a new value. -/
  | checked (path : String) (value : Option String) (accepted : Bool)
  /-- An option's owner is told that it changed. -/
  | changed (path : String) (value : Option String)
  /-- An option's owner is told that it goes away. -/
  | deleted (path : String) (value : Option String)
  /-- A section's read hook is called with a line. -/
  | lineRead (sectionName option : String) (value : Option String)
  /-- A section's write hook is called. -/
  | sectionWritten (sectionName : String)
  /-- A section's hook for writing defaults is called. -/
  | defaultsWritten (sectionName : String)
  /-- A section's hook that makes options is called. -/
  | optionRequested (sectionName option : String) (value : Option String)
  /-- A section's hook that removes options is called. -/
  | removalRequested (sectionName option : String)
  /-- A file's reload hook is called. -/
  | reloadRequested (file : String)
  /-- A revision of old lines is called, as the step to a version or on its own. -/
  | migrated (target : Option Nat) (line : LineData)
  /-- A warning for the user. -/
  | warning (text : String)
  /-- An error message for the user. -/
  | error (text : String)
  /-- A log record. -/
  | record (level : Level) (source : Source) (text : String)
  deriving Repr, DecidableEq

/-- A result with the events that led to it, oldest first. -/
structure Traced (α : Type) where
  events : List Event
  result : α

namespace Traced

/-- A result without events. -/
protected def pure {α : Type} (a : α) : Traced α :=
  ⟨[], a⟩

/-- An operation and then another on its result. -/
protected def bind {α β : Type} (x : Traced α) (f : α → Traced β) : Traced β :=
  let y := f x.result
  ⟨x.events ++ y.events, y.result⟩

instance : Monad Traced where
  pure := Traced.pure
  bind := Traced.bind

/-- A value alone has no events. -/
@[simp] theorem events_pure {α : Type} (a : α) : (pure a : Traced α).events = [] := rfl

/-- A value alone is its own result. -/
@[simp] theorem result_pure {α : Type} (a : α) : (pure a : Traced α).result = a := rfl

/-- The events of two computations are those of the first and then those of the second. -/
@[simp] theorem events_bind {α β : Type} (x : Traced α) (f : α → Traced β) :
    (x >>= f).events = x.events ++ (f x.result).events := rfl

/-- The second computation goes on with the result of the first. -/
@[simp] theorem result_bind {α β : Type} (x : Traced α) (f : α → Traced β) :
    (x >>= f).result = (f x.result).result := rfl

/-- Chaining with a bare result on the left changes nothing. -/
@[simp] theorem pure_bind {α β : Type} (a : α) (f : α → Traced β) : (pure a >>= f) = f a := rfl

/-- The operation that does nothing but happen. -/
def tell (events : List Event) : Traced Unit :=
  ⟨events, ()⟩

/-- What is told are the events. -/
@[simp] theorem events_tell (es : List Event) : (tell es).events = es := rfl

/-- Telling has no result. -/
@[simp] theorem result_tell (es : List Event) : (tell es).result = () := rfl

/-- An operation on each thing of a list, from the first to the last. -/
def each {α β : Type} (f : α → Traced β) : List α → Traced (List β)
  | [] => pure []
  | a :: as => do
    let b ← f a
    let bs ← each f as
    pure (b :: bs)

/-- The results are those of the single operations. -/
theorem result_each {α β : Type} (f : α → Traced β) (as : List α) :
    (each f as).result = as.map fun a => (f a).result := by
  induction as with
  | nil => rfl
  | cons a as ih => simp [each, ih]

/-- The events are those of the single operations, in their order. -/
theorem events_each {α β : Type} (f : α → Traced β) (as : List α) :
    (each f as).events = as.flatMap fun a => (f a).events := by
  induction as with
  | nil => rfl
  | cons a as ih => simp [each, ih]

/-- A bare function on each thing is the list's own `map`. -/
theorem each_pure {α β : Type} (f : α → β) (as : List α) :
    (each (fun a => pure (f a)) as) = pure (as.map f) := by
  induction as with
  | nil => rfl
  | cons a as ih => simp only [each, ih, pure_bind, List.map_cons]

/-- A log record of the engine. -/
def log (level : Level) (text : String) : Traced Unit :=
  tell [.record level .engine text]

/-- A warning for the user. -/
def warn (text : String) : Traced Unit :=
  tell [.warning text]

/-- An error message for the user. -/
def complain (text : String) : Traced Unit :=
  tell [.error text]

end Traced

/-- The event as a host without a console and a listener of its own sees it: messages and changes
become log records. -/
def Event.toRecord : Event → Event
  | .warning text => .record .warn .console text
  | .error text => .record .error .console text
  | .notified path value =>
    .record .debug .engine ("Option changed: " ++ path ++ " = " ++ value.getD "null")
  | event => event

end TypedConfig
