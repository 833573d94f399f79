/-!
# TOML values

The values of a TOML document, and how its lines build them. A table remembers how it came to be, because
that decides what may be added to it: a header defines a table once, a table that only stood on the way to
another one can still get a header, dotted keys add to tables of dotted keys, and a table between braces
is complete.
-/

namespace Exemplar.Toml

/-- How a table came to be. -/
inductive Origin where
  /-- It has a header of its own, or is the whole document. -/
  | header
  /-- It stands on the way of a longer header. -/
  | implied
  /-- It stands on the way of a dotted key. -/
  | dotted
  /-- It is written between braces. -/
  | inline
deriving DecidableEq, Repr

/-- A value. Of floats and of dates and times only the kind is kept. -/
inductive Value where
  | string (text : String)
  | integer (number : Int)
  | float
  | boolean (value : Bool)
  | dateTime
  | array (items : List Value)
  | table (origin : Origin) (entries : List (String × Value))
  /-- The tables of array headers with the same key, in order. -/
  | tables (items : List Value)
deriving Repr

/-- A key: the names on the way to a table, and a name in that table. -/
structure Key where
  way : List String
  name : String
deriving DecidableEq, Repr

/-- A line of a document that says something. -/
inductive Statement where
  | header (key : Key)
  | arrayHeader (key : Key)
  | assign (key : Key) (value : Value)
deriving Repr

/-- What leads to a table: a header, or the key of a value. -/
inductive Route where
  | header
  | dotted
deriving DecidableEq, Repr

namespace Route

/-- How a table on the way comes to be if it is missing. -/
def origin : Route → Origin
  | header => .implied
  | dotted => .dotted

/-- Whether the way may lead through a value. Headers may lead through all tables that are not complete,
dotted keys not through those with a header. -/
def enters : Route → Value → Bool
  | header, .table origin _ => origin != .inline
  | dotted, .table origin _ => origin == .implied || origin == .dotted
  | _, .tables _ => true
  | _, _ => false

end Route

namespace Value

/-- Entries with a value under a name, in place of the one there if there is one. -/
def put (name : String) (value : Value) : List (String × Value) → List (String × Value)
  | [] => [(name, value)]
  | (other, old) :: entries =>
    if other = name then (name, value) :: entries else (other, old) :: put name value entries

/-- Changes the last one of several tables, or else the value itself. -/
def changeLast (update : Value → Option Value) : Value → Option Value
  | tables items => do
    let last ← items.getLast?
    return tables (items.dropLast ++ [← update last])
  | value => update value

/-- Changes the table that some names lead to. -/
def change (route : Route) (update : Value → Option Value) : List String → Value → Option Value
  | [], value => update value
  | name :: way, table origin entries => do
    let child := (entries.lookup name).getD (table route.origin [])
    if route.enters child then
      return table origin (put name (← child.changeLast (change route update way)) entries)
    else none
  | _ :: _, _ => none

/-- Adds a name with a value to a table. A dotted key adds only to tables of dotted keys. -/
def addEntry (key : Key) (value : Value) : Value → Option Value
  | table origin entries =>
    if (entries.lookup key.name).isSome || !key.way.isEmpty && origin != .dotted then none
    else some (table origin (put key.name value entries))
  | _ => none

/-- Adds a key with a value to a table. -/
def assign (target : Value) (key : Key) (value : Value) : Option Value :=
  target.change .dotted (addEntry key value) key.way

/-- Lets a header define a table, which must not have one yet. -/
def addTable (name : String) : Value → Option Value
  | table origin entries =>
    match entries.lookup name with
    | none => some (table origin (put name (table .header []) entries))
    | some (table .implied old) => some (table origin (put name (table .header old) entries))
    | some _ => none
  | _ => none

/-- Lets an array header add a table to those of the same name. -/
def addToTables (name : String) : Value → Option Value
  | table origin entries =>
    match entries.lookup name with
    | none => some (table origin (put name (tables [table .header []]) entries))
    | some (tables items) =>
      some (table origin (put name (tables (items ++ [table .header []])) entries))
    | some _ => none
  | _ => none

/-- The table between braces that some keys and values make. -/
def ofPairs? (pairs : List (Key × Value)) : Option Value :=
  pairs.foldlM (fun target (key, value) => target.assign key value) (table .inline [])

end Value

/-- A document that is read line by line. -/
structure Draft where
  root : Value := .table .header []
  /-- The names of the last header. -/
  current : List String := []
deriving Repr

namespace Draft

/-- Adds a line. -/
def add (draft : Draft) : Statement → Option Draft
  | .header key => do
    return ⟨← draft.root.change .header (Value.addTable key.name) key.way, key.way ++ [key.name]⟩
  | .arrayHeader key => do
    return ⟨← draft.root.change .header (Value.addToTables key.name) key.way, key.way ++ [key.name]⟩
  | .assign key value => do
    let root ← draft.root.change .header (·.assign key value) draft.current
    return { draft with root }

end Draft

/-- The table that the lines of a document make, unless they contradict each other. -/
def Value.ofStatements? (statements : List Statement) : Option Value :=
  (statements.foldlM Draft.add {}).map Draft.root

end Exemplar.Toml
