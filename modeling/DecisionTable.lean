import DecisionTable.Case.Decision
import DecisionTable.Case.Printer
import DecisionTable.Condition.Grammar
import DecisionTable.Condition.Printer
import DecisionTable.Condition.Sharing
import DecisionTable.Expansion.Choices
import DecisionTable.Proofs.Case.Decision
import DecisionTable.Proofs.Condition.Grammar
import DecisionTable.Proofs.Condition.RoundTrip
import DecisionTable.Proofs.Expansion.NormalForm
import DecisionTable.Rule.File
import DecisionTable.Rule.Printer
import DecisionTable.Table.Layout
import DecisionTable.Table.Scalar
import DecisionTable.Table.Summary
import DecisionTable.Proofs.Text.Locality
import DecisionTable.Proofs.Condition.Composition
import DecisionTable.Proofs.Condition.Sharing
import DecisionTable.Proofs.Rule.Sharing
import DecisionTable.Proofs.Case.Shape
import DecisionTable.Proofs.Case.Keywords
import DecisionTable.Proofs.Case.RoundTrip
import DecisionTable.Proofs.Condition.Canonical
import DecisionTable.Proofs.Rule.Lines
import DecisionTable.Proofs.Rule.RoundTrip
import DecisionTable.Proofs.Table.Columns
import DecisionTable.Proofs.Rule.Workbook
import DecisionTable.Proofs.Case.Agreement
import DecisionTable.Proofs.Case.Conditions
import DecisionTable.Proofs.Case.Tagging
import DecisionTable.Proofs.Rule.Lookup
import DecisionTable.Proofs.Rule.Concatenation
import DecisionTable.Proofs.Condition.Message
import DecisionTable.Proofs.Condition.Position
import DecisionTable.Proofs.Expansion.Regrouping
import DecisionTable.Proofs.Expansion.Reordering
import DecisionTable.Proofs.Row.History
import DecisionTable.Proofs.Case.Layout
import DecisionTable.Proofs.Expansion.Counting
import DecisionTable.Proofs.Condition.Eviction
import DecisionTable.Proofs.Condition.Gaps
import DecisionTable.Proofs.Condition.Respelling
import DecisionTable.Proofs.Table.Alignment
import DecisionTable.Text.Separated
import DecisionTable.Proofs.Table.Header
import DecisionTable.Proofs.Table.Cells
import DecisionTable.Proofs.Case.Opening
import DecisionTable.Proofs.Expansion.Depth
import DecisionTable.Proofs.Condition.Integers
import DecisionTable.Proofs.Condition.Values
