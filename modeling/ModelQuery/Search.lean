import ModelQuery.Filter.OfExpression

/-!
# Model searches

A search asks for the models that a filter accepts: which attributes to report, how many models at
most, and whether devices alone count. `Search.ofFilter` makes one from a filter and options;
requested attributes are identified by number, so that two names of one attribute request it once.
-/

namespace ModelQuery

/-- The largest number of models that a search reports unless it is told otherwise. -/
def defaultThrottleSize : UInt32 := 9999

/-- The names of the attributes that a search requests unless it is told otherwise. -/
def defaultAttributeNames : List String :=
  Attribute.defaults.map Attribute.name

/-- What a search is made with besides its filter. Attributes are given by name or literal, those of
every search apart from those of this one; a throttle size of zero stands for the default. -/
structure SearchOptions where
  baseAttributes : List String := defaultAttributeNames
  extraAttributes : List String := []
  throttleSize : UInt32 := defaultThrottleSize
  devicesOnly : Bool := false
  deriving DecidableEq, Repr

/-- The options with further attributes for this search, after those it has. -/
def SearchOptions.adding (options : SearchOptions) (names : List String) : SearchOptions :=
  { options with extraAttributes := options.extraAttributes ++ names }

/-- A search. The requested attributes are written forms of identifiers, each given once. -/
structure Search where
  filter : Filter
  requestedAttributes : List String
  throttleSize : UInt32
  devicesOnly : Bool
  deriving Repr

namespace Search

/-- The list with the value at its end, unless it is there already. -/
def appendNew (seen : List String) (value : String) : List String :=
  if seen.contains value then seen else seen ++ [value]

/-- The values in order of first appearance, each once. -/
def withoutRepetitions (values : List String) : List String :=
  values.foldl appendNew []

/-- The search for a filter. The first attribute that cannot be resolved, base attributes before
extra ones, is the error. -/
def ofFilter (filter : Filter) (options : SearchOptions) : Except Error Search := do
  let base ← AttributeId.resolveAll options.baseAttributes
  let extra ← AttributeId.resolveAll options.extraAttributes
  pure {
    filter := filter
    requestedAttributes := withoutRepetitions (base ++ extra)
    throttleSize := if options.throttleSize = 0 then defaultThrottleSize else options.throttleSize
    devicesOnly := options.devicesOnly }

/-- The search that a text and options describe. The text is read before the attributes of the
options are resolved. -/
def parse (text : String) (options : SearchOptions) : Except Error Search := do
  let filter ← Filter.parse text
  ofFilter filter options

/-- The form that a request carries. -/
def toJson (search : Search) : Json :=
  .object [("filter", search.filter.toJson),
    ("requested_attrs", .array (search.requestedAttributes.map .text)),
    ("throttle_size", .number search.throttleSize.toNat),
    ("devices_only", .boolean search.devicesOnly)]

end Search

end ModelQuery
