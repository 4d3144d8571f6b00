/-!
# Document trees

A TOML document is a tree of tables that is built line by line.  Tables keep their keys in the order
in which they were first written.  How a table came about decides how it may be written to later:
`within` walks down a path of keys and creates the tables that are missing, `insertNew`, `openTable`
and `openTables` act at its end.  All of them refuse what would define something twice.
-/

namespace Cadence.Toml

inductive Origin
  /-- It has a header of its own, or is the whole document. -/
  | header
  /-- A longer header passes through it. -/
  | implied
  /-- A dotted key passes through it. -/
  | dotted
  /-- It is written as one value. -/
  | inline
  deriving DecidableEq

/-- A value or table of a document.  Of a date or time only that it is one is kept. -/
inductive Node
  | string (value : String)
  | integer (value : Int)
  | float (value : Float)
  | boolean (value : Bool)
  | datetime
  | array (items : List Node)
  | table (origin : Origin) (entries : List (String × Node))
  | tables (items : List (List (String × Node)))

abbrev Entries := List (String × Node)

namespace Entries

def replace (es : Entries) (key : String) (node : Node) : Entries :=
  es.map fun e => if e.1 = key then (key, node) else e

def remove (es : Entries) (key : String) : Entries :=
  es.filter fun e => e.1 ≠ key

def insertNew (key : String) (node : Node) (es : Entries) : Option Entries :=
  match es.lookup key with
  | some _ => none
  | none => some (es ++ [(key, node)])

/-- Open the table of a header: a new one, or one that only longer headers have passed through so
far, which then moves to the end. -/
def openTable (key : String) (es : Entries) : Option Entries :=
  match es.lookup key with
  | none => some (es ++ [(key, .table .header [])])
  | some (.table .implied sub) => some (es.remove key ++ [(key, .table .header sub)])
  | some _ => none

def openTables (key : String) (es : Entries) : Option Entries :=
  match es.lookup key with
  | none => some (es ++ [(key, .tables [[]])])
  | some (.tables items) => some (es.replace key (.tables (items ++ [[]])))
  | some _ => none

/-- Apply `act` to the table at the end of a path.  The path of a header may pass through every table
that is not a value; a dotted key only through tables without a header, and it must end in one that
dotted keys have made.  Of an array of tables the last one is meant. -/
def within (isDotted : Bool) : List String → (Entries → Option Entries) → Entries → Option Entries
  | [], act, es => act es
  | key :: path, act, es =>
    match es.lookup key with
    | none =>
      (within isDotted path act []).map fun sub =>
        es ++ [(key, .table (if isDotted then .dotted else .implied) sub)]
    | some (.table origin sub) =>
      if origin = .inline then none
      else if isDotted && (origin == .header || (path.isEmpty && origin != .dotted)) then none
      else (within isDotted path act sub).map fun sub => es.replace key (.table origin sub)
    | some (.tables items) =>
      if isDotted && path.isEmpty then none
      else
        match items.getLast? with
        | none => none
        | some last =>
          (within isDotted path act last).map fun sub =>
            es.replace key (.tables (items.dropLast ++ [sub]))
    | some _ => none

def insertPair (path : List String) (key : String) (node : Node) (es : Entries) : Option Entries :=
  within true path (insertNew key node) es

end Entries

/-! ## Lines -/

/-- A line of a document that says something.  Keys are given as the path before their last part and
that part. -/
inductive Line
  | header (path : List String) (key : String)
  | arrayHeader (path : List String) (key : String)
  | pair (path : List String) (key : String) (node : Node)

structure Draft where
  root : Entries
  current : List String

namespace Draft

def empty : Draft := ⟨[], []⟩

def add (d : Draft) : Line → Option Draft
  | .header path key =>
    (Entries.within false path (Entries.openTable key) d.root).map (⟨·, path ++ [key]⟩)
  | .arrayHeader path key =>
    (Entries.within false path (Entries.openTables key) d.root).map (⟨·, path ++ [key]⟩)
  | .pair path key node =>
    (Entries.within false d.current (Entries.insertPair path key node) d.root).map
      (⟨·, d.current⟩)

def addAll (d : Draft) (lines : List Line) : Option Draft :=
  lines.foldlM add d

end Draft

end Cadence.Toml
