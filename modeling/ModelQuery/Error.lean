import ModelQuery.Expression.Construct

/-!
# Errors

Every failure is one of four causes: an expression that cannot be read, an attribute that cannot be
resolved, a configuration that cannot be used, and a file or an input that cannot be read or
written. `Error.message` words each of them.
-/

namespace ModelQuery

/-- Why an expression is refused: too many groups inside one another, a text that goes on
differently from what was expected, what was read of it lacks a part or has another part in its
place, or a tree with a keyword or an operator that does not exist. -/
inductive ExpressionFault where
  | tooDeep
  | expected (constructs : List Construct)
  | incomplete
  | unexpected (construct : Construct)
  | unsupportedKeyword (keyword : String)
  | unsupportedOperator (symbol : String)
  deriving DecidableEq, Repr

/-- The number of groups that may be open at once. -/
def groupLimit : Nat := 128

/-- What is wrong, in words. -/
def ExpressionFault.detail : ExpressionFault → String
  | .tooDeep => "nesting too deep (more than " ++ toString groupLimit ++ " levels)"
  | .expected constructs => Construct.expectation constructs
  | .incomplete => "incomplete expression"
  | .unexpected construct => "unexpected " ++ construct.words
  | .unsupportedKeyword keyword => "unsupported group keyword '" ++ keyword ++ "'"
  | .unsupportedOperator symbol => "unsupported operator '" ++ symbol ++ "'"

/-- A refused expression: its text, the fault, and where the fault is. The offset counts bytes from
zero; line and column count from one. -/
structure ExpressionError where
  expression : String
  fault : ExpressionFault
  line : Nat
  column : Nat
  offset : Nat
  deriving DecidableEq, Repr

/-- Why a configuration cannot be used: its file is not well formed, the throttle size is zero, a
default attribute cannot be resolved, or there is no home directory to look for it in. -/
inductive ConfigFault where
  | malformed
  | zeroThrottle
  | unknownDefault (name : String)
  | noHome
  deriving DecidableEq, Repr

/-- A failure and its cause. -/
inductive Error where
  | expression (error : ExpressionError)
  | unknownAttribute (name : String)
  | config (fault : ConfigFault)
  | access
  deriving DecidableEq, Repr

/-- The message that names an attribute which cannot be resolved. -/
def unknownAttributeMessage (name : String) : String :=
  "'" ++ name ++ "' is not a recognised Spectrum attribute name or valid ID"

/-- The fault of a configuration in words. -/
def ConfigFault.detail : ConfigFault → String
  | .malformed => "Failed to parse config"
  | .zeroThrottle => "throttle_size must be greater than zero"
  | .unknownDefault name => "Invalid default_attrs: " ++ unknownAttributeMessage name
  | .noHome => "Could not determine home directory"

/-- The message of an error. A refused expression is quoted after an empty line. -/
def Error.message : Error → String
  | .expression error =>
      "Unable to parse filter expression at line " ++ toString error.line ++ ", column " ++
        toString error.column ++ ": " ++ error.fault.detail ++ "\n\n" ++ error.expression
  | .unknownAttribute name => unknownAttributeMessage name
  | .config fault => "Configuration error: " ++ fault.detail
  | .access => "IO error"

end ModelQuery
