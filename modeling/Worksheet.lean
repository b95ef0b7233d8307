import Worksheet.Sheet.File
import Worksheet.Main
import Worksheet.Proofs.Forest.Links
import Worksheet.Proofs.Forest.Trees
import Worksheet.Proofs.Forest.Joining
import Worksheet.Proofs.Forest.Edits
import Worksheet.Proofs.Forest.Operation
import Worksheet.Proofs.Expr.Levels
import Worksheet.Proofs.Decimal.Lexeme
import Worksheet.Proofs.Decimal.Packing
import Worksheet.Proofs.Decimal.Reading
import Worksheet.Proofs.Decimal.Layout
import Worksheet.Proofs.Decimal.Shortest
import Worksheet.Proofs.Grammar.Scanning
import Worksheet.Proofs.Number.Literal
import Worksheet.Proofs.Expr.Written
import Worksheet.Proofs.Decimal.Rounding
import Worksheet.Proofs.Forest.Rendering
import Worksheet.Proofs.Expr.Reading
import Worksheet.Proofs.Expr.Evaluation
import Worksheet.Proofs.Forest.Grafting
import Worksheet.Proofs.Forest.Gathering
import Worksheet.Proofs.Sheet.Rooted
import Worksheet.Proofs.Sheet.Entering
import Worksheet.Proofs.Sheet.Operation
import Worksheet.Proofs.Sheet.Replaying
import Worksheet.Proofs.Sheet.Saving
import Worksheet.Proofs.Sheet.RoundTrip
import Worksheet.Proofs.Pool.Generations
import Worksheet.Proofs.Forest.Staleness
import Worksheet.Proofs.Forest.Outcome
import Worksheet.Proofs.Forest.Census
import Worksheet.Proofs.Sheet.Edits
import Worksheet.Proofs.Sheet.Structure
import Worksheet.Proofs.Sheet.Stepwise
import Worksheet.Proofs.Expr.Agreement
import Worksheet.Proofs.Sheet.Distinct
import Worksheet.Proofs.Grammar.Numeral
import Worksheet.Proofs.Grammar.Derivation
import Worksheet.Proofs.Expr.Acceptance
import Worksheet.Proofs.Expr.Conformance
import Worksheet.Proofs.Expr.Names
import Worksheet.Proofs.Expr.Faults
import Worksheet.Proofs.Expr.Replay
import Worksheet.Proofs.Forest.Values
import Worksheet.Proofs.Sheet.Segments
import Worksheet.Proofs.Sheet.Repeating
import Worksheet.Proofs.Sheet.KindSafety
import Worksheet.Proofs.Pool.Mapping
import Worksheet.Proofs.Forest.Unrooting
import Worksheet.Proofs.Sheet.Sequence
import Worksheet.Proofs.Sheet.Decoding
import Worksheet.Proofs.Sheet.Skipping
import Worksheet.Proofs.Sheet.Versions
import Worksheet.Proofs.Forest.Purity
import Worksheet.Proofs.Forest.Stepwise
import Worksheet.Proofs.Forest.Refusal
import Worksheet.Proofs.Forest.Taking
import Worksheet.Proofs.Forest.Accounting
import Worksheet.Proofs.Sheet.Switching
import Worksheet.Proofs.Decimal.Range
import Worksheet.Proofs.Expr.Widening
import Worksheet.Proofs.Sheet.Widening
import Worksheet.Proofs.Forest.Adoption
import Worksheet.Proofs.Sheet.Misreading
import Worksheet.Proofs.Forest.Attachment
import Worksheet.Proofs.Forest.Moving
import Worksheet.Proofs.Sheet.Loading
import Worksheet.Proofs.Forest.Planting
import Worksheet.Proofs.Forest.MissingValues
import Worksheet.Proofs.Expr.Noticing
import Worksheet.Proofs.Forest.Asking
import Worksheet.Proofs.Sheet.Reporting
import Worksheet.Proofs.Sheet.Removing
import Worksheet.Proofs.Sheet.Replacing
import Worksheet.Proofs.Expr.Classification
import Worksheet.Proofs.Expr.Negation
import Worksheet.Proofs.Forest.Integers
import Worksheet.Proofs.Sheet.Filtering
import Worksheet.Proofs.Variables.Settling
import Worksheet.Proofs.Sheet.Outlining
import Worksheet.Proofs.Forest.Frames
import Worksheet.Proofs.Forest.Comparing
import Worksheet.Proofs.Forest.Walking
import Worksheet.Proofs.Forest.Searching
