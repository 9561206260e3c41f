/-!
# TOML values

The values of a TOML document, and how key by key a document grows. A table remembers how it came
about, because that decides what may still be added to it: `Value.descend` walks to a table along
keys, making missing ones, and `Value.addKey`, `Value.addHeader` and `Value.addElement` are the
three ways in which a document names a table or a value. Each refuses what the language forbids.
-/

namespace TypedConfig.Toml

/-- How a table came about. -/
inductive Origin
  /-- Its own header, or the document itself. -/
  | header
  /-- The header of a table below it; it may get a header of its own. -/
  | implicit
  /-- A dotted key; it may grow by further dotted keys. -/
  | dotted
  /-- Braces; nothing may be added. -/
  | closed
  deriving Repr, DecidableEq

/-- A value. Numbers, dates and times are told apart from the rest but not from one another. -/
inductive Value
  | string (text : String)
  | boolean (flag : Bool)
  | scalar
  /-- An array; one of tables is made by headers with double brackets. -/
  | array (ofTables : Bool) (elements : List Value)
  | table (origin : Origin) (entries : List (String × Value))

/-- The value of a key. -/
def lookup? (key : String) (entries : List (String × Value)) : Option Value :=
  entries.lookup key

/-- The entries with another value for a key, or a new key at the end. -/
def update (key : String) (value : Value) : List (String × Value) → List (String × Value)
  | [] => [(key, value)]
  | (k, v) :: rest => if k = key then (k, value) :: rest else (k, v) :: update key value rest

/-- Whether dotted keys may go through a table. -/
def Origin.isOpen : Origin → Bool
  | .implicit | .dotted => true
  | .header | .closed => false

namespace Value

/-- Changes the table at the end of a path of keys. A missing table is made as `made` says. Headers
go through each table but closed ones, and through the last table of an array of them; dotted keys
go only through tables that have no header of their own. -/
def descend (made : Origin) (change : Origin → List (String × Value) → Option Value) :
    List String → Value → Option Value
  | [], .table origin entries => change origin entries
  | key :: path, .table origin entries =>
    match lookup? key entries with
    | none => do
      let child ← descend made change path (.table made [])
      some (.table origin (update key child entries))
    | some (.table childOrigin childEntries) =>
      if childOrigin = .closed ∨ (made = .dotted ∧ !childOrigin.isOpen) then none
      else do
        let child ← descend made change path (.table childOrigin childEntries)
        some (.table origin (update key child entries))
    | some (.array true elements) => do
      let last ← elements.getLast?
      let child ← descend made change path last
      some (.table origin (update key (.array true (elements.dropLast ++ [child])) entries))
    | some _ => none
  | _, _ => none

/-- Adds a value under a key, which may be dotted, below the current table. -/
def addKey (path : List String) (key : String) (value : Value) (table : Value) : Option Value :=
  descend .dotted (fun origin entries =>
    if (origin == .dotted) == path.isEmpty then none
    else if (lookup? key entries).isSome then none
    else some (.table origin (update key value entries))) path table

/-- Gives a table its header. -/
def addHeader (path : List String) (key : String) (root : Value) : Option Value :=
  descend .implicit (fun origin entries =>
    match lookup? key entries with
    | none => some (.table origin (update key (.table .header []) entries))
    | some (.table .implicit below) =>
      some (.table origin (update key (.table .header below) entries))
    | some _ => none) path root

/-- Adds an empty table to an array of tables, which is made if it is missing. -/
def addElement (path : List String) (key : String) (root : Value) : Option Value :=
  descend .implicit (fun origin entries =>
    match lookup? key entries with
    | none => some (.table origin (update key (.array true [.table .header []]) entries))
    | some (.array true elements) =>
      some (.table origin (update key (.array true (elements ++ [.table .header []])) entries))
    | some _ => none) path root

/-- Changes the table that the last header named. -/
def atHeader (change : Value → Option Value) : List String → Value → Option Value
  | [], t => change t
  | key :: path, .table origin entries => do
    let child ← lookup? key entries
    match child with
    | .array ofTables elements =>
      let last ← elements.getLast?
      let last ← atHeader change path last
      some (.table origin (update key (.array ofTables (elements.dropLast ++ [last])) entries))
    | child =>
      let child ← atHeader change path child
      some (.table origin (update key child entries))
  | _, _ => none

end Value

end TypedConfig.Toml
