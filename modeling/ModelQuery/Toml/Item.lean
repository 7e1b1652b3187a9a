/-!
# What a TOML document holds

The configuration file is a TOML document. `Item` is a value or a table of such a document. Numbers
with a fraction, dates and times are checked when they are read, but nothing depends on what they
say, so an item keeps their kind only.
-/

namespace ModelQuery.Toml

/-- How a table came about: under a header of its own, on the way to a header below it, by a dotted
key, or between braces. What may be added to a table later depends on it. -/
inductive TableKind where
  | explicit
  | implied
  | dotted
  | inline
  deriving DecidableEq, Repr

/-- A value, a table, or the rows of an array of tables. `moment` is a date, a time, or both. The
entries of a table are in the order in which they were added. -/
inductive Item where
  | text (value : String)
  | integer (value : Int)
  | float
  | boolean (value : Bool)
  | moment
  | array (items : List Item)
  | table (kind : TableKind) (entries : List (String × Item))
  | rows (rows : List (List (String × Item)))

/-- The entries of a table. -/
abbrev Entries := List (String × Item)

/-- The item with this key. -/
def Entries.find? (key : String) : Entries → Option Item
  | [] => none
  | (name, item) :: rest => if name = key then some item else Entries.find? key rest

/-- The entries with the item of this key replaced, or with a new entry at the end. -/
def Entries.set (key : String) (item : Item) : Entries → Entries
  | [] => [(key, item)]
  | (name, old) :: rest =>
      if name = key then (key, item) :: rest else (name, old) :: Entries.set key item rest

end ModelQuery.Toml
