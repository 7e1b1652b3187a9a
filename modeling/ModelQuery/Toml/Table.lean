import ModelQuery.Toml.Item

/-!
# Adding to TOML tables

A document builds its tables entry by entry. `Entries.assign` enters a value under a dotted key, and
`Entries.addSection` enters a table or a row under a header. Neither ever replaces what is there:
a key that is taken, or that stands for something else than a table on the way, makes the document
malformed.
-/

namespace ModelQuery.Toml

/-- A dotted key: the tables on the way, and the key in the last of them. -/
structure KeyPath where
  parents : List String
  key : String
  deriving DecidableEq, Repr

/-- A value that is entered under a key. -/
structure Assignment where
  path : KeyPath
  value : Item

/-- A header opens a table, or a further row of an array of tables. -/
inductive Header where
  | table (path : KeyPath)
  | row (path : KeyPath)
  deriving DecidableEq, Repr

/-- A header and the assignments below it. -/
structure Section where
  header : Header
  assignments : List Assignment

/-- Applies a change to the last row, if there is a row. -/
def changeLast (change : Entries → Option Entries) : List Entries → Option (List Entries)
  | [] => none
  | [row] => (change row).map ([·])
  | row :: rows => (changeLast change rows).map (row :: ·)

namespace Entries

/-- Enters an item under a key that is free. -/
def add (key : String) (item : Item) (entries : Entries) : Option Entries :=
  match entries.find? key with
  | none => some (entries ++ [(key, item)])
  | some _ => none

/-- Enters an item under a dotted key. Tables on the way are made where there are none. The table
that receives the item must have been made by a dotted key as well; the tables before it may also be
tables that a header implies, or arrays of tables, of which the last row is meant. -/
def assignBelow (key : String) (item : Item) : List String → Entries → Option Entries
  | [], entries => entries.add key item
  | parent :: parents, entries =>
      match entries.find? parent with
      | none => do
          let inner ← assignBelow key item parents []
          entries.add parent (.table .dotted inner)
      | some (.table .dotted inner) => do
          let inner ← assignBelow key item parents inner
          pure (entries.set parent (.table .dotted inner))
      | some (.table .implied inner) => do
          if parents.isEmpty then none
          let inner ← assignBelow key item parents inner
          pure (entries.set parent (.table .implied inner))
      | some (.rows rows) => do
          if parents.isEmpty then none
          let rows ← changeLast (assignBelow key item parents) rows
          pure (entries.set parent (.rows rows))
      | some _ => none

/-- Enters a value under its dotted key. -/
def assign (entries : Entries) (assignment : Assignment) : Option Entries :=
  entries.assignBelow assignment.path.key assignment.value assignment.path.parents

/-- Enters several values, one after the other. -/
def assignAll (entries : Entries) (assignments : List Assignment) : Option Entries :=
  assignments.foldlM assign entries

/-- Applies a change to the table that the keys lead to. Tables on the way are made where there are
none, and an array of tables leads on through its last row. A table between braces is closed. -/
def changeBelow (change : Entries → Option Entries) : List String → Entries → Option Entries
  | [], entries => change entries
  | parent :: parents, entries =>
      match entries.find? parent with
      | none => do
          let inner ← changeBelow change parents []
          entries.add parent (.table .implied inner)
      | some (.table .inline _) => none
      | some (.table kind inner) => do
          let inner ← changeBelow change parents inner
          pure (entries.set parent (.table kind inner))
      | some (.rows rows) => do
          let rows ← changeLast (changeBelow change parents) rows
          pure (entries.set parent (.rows rows))
      | some _ => none

/-- Opens a table under a key and fills it. Its name must be free, or imply a table so far. -/
def openTable (key : String) (assignments : List Assignment) (entries : Entries) :
    Option Entries :=
  match entries.find? key with
  | none => do
      let inner ← assignAll [] assignments
      entries.add key (.table .explicit inner)
  | some (.table .implied inner) => do
      let inner ← assignAll inner assignments
      pure (entries.set key (.table .explicit inner))
  | some _ => none

/-- Adds a row to the array of tables under a key and fills it. Its name must be free, or stand for
an array of tables. -/
def openRow (key : String) (assignments : List Assignment) (entries : Entries) :
    Option Entries := do
  let row ← assignAll [] assignments
  match entries.find? key with
  | none => entries.add key (.rows [row])
  | some (.rows rows) => pure (entries.set key (.rows (rows ++ [row])))
  | some _ => none

/-- Enters what stands below a header. -/
def addSection (entries : Entries) (part : Section) : Option Entries :=
  match part.header with
  | .table path => changeBelow (openTable path.key part.assignments) path.parents entries
  | .row path => changeBelow (openRow path.key part.assignments) path.parents entries

end Entries

end ModelQuery.Toml
