/-!
# Commands

What the command line can be asked to do. `Arguments.read` turns arguments into a command and
`Command.plan` says what a command does.
-/

namespace ModelQuery

/-- What the command line says of a search besides its expression. Attributes are added to those of
the configuration, the restriction to devices is joined with it, and a throttle size, if there is
one, takes its place. -/
structure Overrides where
  attributes : List String
  devicesOnly : Bool
  throttleSize : Option UInt32
  deriving DecidableEq, Repr

/-- A command: print the filter of an expression, print a search, list attributes whose name
contains a text, resolve names, list operators, write a configuration file, or print the quick
reference. An expression that is missing is read from the standard input. -/
inductive Command where
  | parse (expression : Option String) (compact : Bool)
  | search (expression : Option String) (overrides : Overrides) (compact : Bool)
  | attributes (part : Option String)
  | resolve (names : List String)
  | operators
  | setUp (force : Bool)
  | quickReference
  deriving DecidableEq, Repr

end ModelQuery
