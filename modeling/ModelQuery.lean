import ModelQuery.Attribute.Catalogue
import ModelQuery.Attribute.Id
import ModelQuery.Attribute.Literal
import ModelQuery.Attribute.Resolve
import ModelQuery.Attribute.WordLiteral
import ModelQuery.Command.Arguments
import ModelQuery.Command.Basic
import ModelQuery.Command.Invocation
import ModelQuery.Command.Plan
import ModelQuery.Command.Reference
import ModelQuery.Config.Account
import ModelQuery.Config.Basic
import ModelQuery.Config.Format
import ModelQuery.Config.Store
import ModelQuery.Error
import ModelQuery.Expression.Basic
import ModelQuery.Expression.Construct
import ModelQuery.Expression.Depth
import ModelQuery.Expression.Grammar
import ModelQuery.Expression.Matcher
import ModelQuery.Expression.Pair
import ModelQuery.Expression.Parse
import ModelQuery.Expression.Token
import ModelQuery.Expression.Value
import ModelQuery.Files.Path
import ModelQuery.Files.Tree
import ModelQuery.Filter.Basic
import ModelQuery.Filter.Combinator
import ModelQuery.Filter.OfExpression
import ModelQuery.Filter.Operator
import ModelQuery.Json.Basic
import ModelQuery.Search
import ModelQuery.Text.Blank
import ModelQuery.Text.Letter
import ModelQuery.Text.Numeral
import ModelQuery.Text.Offset
import ModelQuery.Toml.Document
import ModelQuery.Toml.Item
import ModelQuery.Toml.Quoted
import ModelQuery.Toml.Scalar
import ModelQuery.Toml.Table
import ModelQuery.Toml.Value
import ModelQuery.Main
import ModelQuery.Proofs.Attribute.Hexadecimal
import ModelQuery.Proofs.Attribute.LetterCase
import ModelQuery.Proofs.Attribute.Literal
import ModelQuery.Proofs.Attribute.Naming
import ModelQuery.Proofs.Attribute.WordLiteral
import ModelQuery.Proofs.Command.Arguments
import ModelQuery.Proofs.Command.Channel
import ModelQuery.Proofs.Command.Resolving
import ModelQuery.Proofs.Command.Searching
import ModelQuery.Proofs.Command.SettingUp
import ModelQuery.Proofs.Config.Loading
import ModelQuery.Proofs.Config.Partial
import ModelQuery.Proofs.Config.Rendering
import ModelQuery.Proofs.Config.Saving
import ModelQuery.Proofs.Expression.Aborting
import ModelQuery.Proofs.Expression.Column
import ModelQuery.Proofs.Expression.Exactness
import ModelQuery.Proofs.Expression.Excess
import ModelQuery.Proofs.Expression.Layout
import ModelQuery.Proofs.Expression.LetterCase
import ModelQuery.Proofs.Expression.Matching
import ModelQuery.Proofs.Expression.Members
import ModelQuery.Proofs.Expression.Nesting
import ModelQuery.Proofs.Expression.Normal
import ModelQuery.Proofs.Expression.Outcome
import ModelQuery.Proofs.Expression.Padding
import ModelQuery.Proofs.Expression.Pairs
import ModelQuery.Proofs.Expression.Parts
import ModelQuery.Proofs.Expression.Place
import ModelQuery.Proofs.Expression.Preorder
import ModelQuery.Proofs.Expression.Progress
import ModelQuery.Proofs.Expression.Quoting
import ModelQuery.Proofs.Expression.Reading
import ModelQuery.Proofs.Expression.Recursion
import ModelQuery.Proofs.Expression.Refusal
import ModelQuery.Proofs.Expression.Separators
import ModelQuery.Proofs.Expression.Survey
import ModelQuery.Proofs.Expression.Verdict
import ModelQuery.Proofs.Files.Making
import ModelQuery.Proofs.Files.Saving
import ModelQuery.Proofs.Filter.Building
import ModelQuery.Proofs.Filter.Composition
import ModelQuery.Proofs.Filter.Counting
import ModelQuery.Proofs.Filter.LetterCase
import ModelQuery.Proofs.Filter.Outcomes
import ModelQuery.Proofs.Filter.Quotation
import ModelQuery.Proofs.Filter.Reading
import ModelQuery.Proofs.Filter.Spelling
import ModelQuery.Proofs.Filter.Translation
import ModelQuery.Proofs.Filter.WellFormed
import ModelQuery.Proofs.Json.Decoding
import ModelQuery.Proofs.Json.Reading
import ModelQuery.Proofs.Search.Appearance
import ModelQuery.Proofs.Search.Growth
import ModelQuery.Proofs.Search.Requesting
import ModelQuery.Proofs.Steps
import ModelQuery.Proofs.Text.Folding
import ModelQuery.Proofs.Text.Numeral
import ModelQuery.Proofs.Text.Run
import ModelQuery.Proofs.Text.Separated
import ModelQuery.Proofs.Text.Trimming
import ModelQuery.Proofs.Toml.Quoting
import ModelQuery.Proofs.Toml.Reading
import ModelQuery.Proofs.Toml.Words
