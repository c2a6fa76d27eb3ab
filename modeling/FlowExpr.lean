import FlowExpr.Text.Blank
import FlowExpr.Text.Cursor
import FlowExpr.Text.Letter
import FlowExpr.Text.Whole
import FlowExpr.Decimal.Layout
import FlowExpr.Decimal.Scaled
import FlowExpr.Decimal.Numeral
import FlowExpr.Value
import FlowExpr.Json.Printer
import FlowExpr.Json.Reader
import FlowExpr.Value.Text
import FlowExpr.Value.Equality
import FlowExpr.Operator.Standard
import FlowExpr.Builtin
import FlowExpr.Token
import FlowExpr.Token.Fault
import FlowExpr.Token.Extent
import FlowExpr.Token.Check
import FlowExpr.Tree.Parser
import FlowExpr.Path.Reader
import FlowExpr.Path.Walk
import FlowExpr.Command.Arguments
import FlowExpr.Main
import FlowExpr.Proofs.Grammar
import FlowExpr.Proofs.Grammar.Lemmas
import FlowExpr.Proofs.Grammar.Completeness
import FlowExpr.Proofs.Grammar.Pending
import FlowExpr.Proofs.Grammar.Soundness
import FlowExpr.Proofs.Grammar.Theorems
import FlowExpr.Proofs.Grammar.Limit
import FlowExpr.Proofs.Grammar.Faults
import FlowExpr.Proofs.Digits
import FlowExpr.Proofs.Printing
import FlowExpr.Proofs.Printing.Segments
import FlowExpr.Proofs.Printing.Theorems
import FlowExpr.Proofs.Spelling
import FlowExpr.Proofs.Spelling.Lemmas
import FlowExpr.Proofs.Spelling.Theorems
import FlowExpr.Proofs.Dependency
import FlowExpr.Proofs.Dependency.Agreement
import FlowExpr.Proofs.Dependency.Scan
import FlowExpr.Proofs.Dependency.Marks
import FlowExpr.Proofs.Dependency.Mentions
import FlowExpr.Proofs.Dependency.Paths
import FlowExpr.Proofs.Dependency.Theorems
import FlowExpr.Proofs.Dependency.Occurrences
import FlowExpr.Proofs.Dependency.Completeness
import FlowExpr.Proofs.Nesting
import FlowExpr.Proofs.Nesting.Theorems
import FlowExpr.Proofs.Enclosing
import FlowExpr.Proofs.Extent
import FlowExpr.Proofs.Rereading
import FlowExpr.Proofs.Rereading.Runs
import FlowExpr.Proofs.Rereading.Tokens
import FlowExpr.Proofs.Rereading.Levels
import FlowExpr.Proofs.Rereading.Theorems
import FlowExpr.Proofs.Enclosing.Skipping
import FlowExpr.Proofs.Enclosing.Theorems
import FlowExpr.Proofs.Joining
import FlowExpr.Proofs.Canonical
import FlowExpr.Proofs.Canonical.Lemmas
import FlowExpr.Proofs.Canonical.Lexing
import FlowExpr.Proofs.Canonical.Theorems
import FlowExpr.Proofs.Segments
import FlowExpr.Proofs.Evaluation
import FlowExpr.Proofs.Shadowing
import FlowExpr.Proofs.Stages
import FlowExpr.Proofs.Guard
import FlowExpr.Proofs.Guard.Balance
import FlowExpr.Proofs.Guard.Theorems
import FlowExpr.Proofs.Denylist
import FlowExpr.Proofs.Grammar.Balance
import FlowExpr.Proofs.Internal
import FlowExpr.Proofs.Internal.Lexing
import FlowExpr.Proofs.Internal.Parsing
import FlowExpr.Proofs.Internal.Theorems
import FlowExpr.Proofs.PathText
import FlowExpr.Proofs.PathText.Reading
import FlowExpr.Proofs.Canonical.Reading
import FlowExpr.Proofs.PathText.Roots
import FlowExpr.Proofs.Canonical.Resolution
import FlowExpr.Proofs.Quoting.Theorems
import FlowExpr.Proofs.Walking
import FlowExpr.Proofs.Fields
import FlowExpr.Proofs.Merging
import FlowExpr.Proofs.Interpolation
import FlowExpr.Proofs.Interpolation.Theorems
import FlowExpr.Proofs.Value
import FlowExpr.Proofs.Binary64.Order
import FlowExpr.Proofs.Value.Equality
import FlowExpr.Proofs.Binary64.Integers
import FlowExpr.Proofs.Binary64.Rounding
import FlowExpr.Proofs.Operator.Order
import FlowExpr.Proofs.Operator.Arithmetic
import FlowExpr.Proofs.Radix
import FlowExpr.Proofs.Json
import FlowExpr.Proofs.Json.Bridge
import FlowExpr.Proofs.Yard
import FlowExpr.Proofs.Yard.Lemmas
import FlowExpr.Proofs.Yard.Theorems
import FlowExpr.Proofs.Unlimited
import FlowExpr.Proofs.Unlimited.Lemmas
import FlowExpr.Proofs.Unlimited.Theorems
import FlowExpr.Proofs.Position
import FlowExpr.Proofs.Position.Lemmas
import FlowExpr.Proofs.Position.Theorems
import FlowExpr.Proofs.Builtin
import FlowExpr.Proofs.Grouping
import FlowExpr.Proofs.FloatText
import FlowExpr.Proofs.FloatText.Longest
import FlowExpr.Proofs.PathText.Theorems
import FlowExpr.Proofs.Binary64.Numbers
import FlowExpr.Proofs.FloatText.Bytes
import FlowExpr.Proofs.FloatText.Theorems
import FlowExpr.Proofs.Indexing
import FlowExpr.Proofs.Indexing.Scanning
import FlowExpr.Proofs.Indexing.Readers
import FlowExpr.Proofs.Indexing.Theorems
