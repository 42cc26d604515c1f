import Reql.Main
import Reql.Query
import Reql.Proofs.Normalize
import Reql.Proofs.Classify
import Reql.Proofs.Command.Agreement
import Reql.Proofs.Command.Makes
import Reql.Proofs.Command.Normalized
import Reql.Proofs.Expr.Drawing
import Reql.Proofs.Expr.Resolution
import Reql.Proofs.Term.Renamed
import Reql.Proofs.Expr.Numbering
import Reql.Proofs.Invocation
import Reql.Proofs.Double.Naturals
import Reql.Proofs.Hygiene.Place
import Reql.Proofs.Hygiene.View
import Reql.Proofs.Hygiene.Parts
import Reql.Proofs.Hygiene.Numbers
import Reql.Proofs.Hygiene.Binding
import Reql.Proofs.Hygiene.Descent
import Reql.Proofs.Hygiene.Hygienic
import Reql.Proofs.Double.Numeral
import Reql.Proofs.Double.Rounding
import Reql.Proofs.Double.Shortest
import Reql.Proofs.Double.Wire
import Reql.Proofs.Json.Scalar
import Reql.Proofs.Json.Compact
import Reql.Proofs.Term.Wire
import Reql.Proofs.Expr.Layout
import Reql.Proofs.Expr.Written
import Reql.Proofs.Registry.Consistent
import Reql.Proofs.Registry.History
import Reql.Proofs.Registry.Policy
import Reql.Proofs.Validity
import Reql.Proofs.Command.OptionOrder
import Reql.Proofs.Typing
import Reql.Proofs.Command.Arrangement
import Reql.Proofs.Command.Signature
import Reql.Proofs.Representation
import Reql.Proofs.Expr.Template
import Reql.Proofs.Registry.Route
import Reql.Proofs.Expr.Counterpart
import Reql.Proofs.Depth
import Reql.Proofs.Expr.Lines
import Reql.Proofs.Expr.Positions
import Reql.Proofs.Registry.Installed
import Reql.Proofs.Translation
import Reql.Proofs.Recovery
import Reql.Proofs.Literal
import Reql.Proofs.Shape
import Reql.Proofs.Command.Declared
import Reql.Proofs.Command.Object
import Reql.Proofs.Command.Replicas
import Reql.Proofs.Command.Scoped
import Reql.Proofs.Command.Functions
import Reql.Proofs.Expr.Nesting
import Reql.Proofs.Expr.Order
import Reql.Proofs.Expr.Rearranged
import Reql.Proofs.Double.Decimal
import Reql.Proofs.Expr.Numbers
import Reql.Proofs.Term.Builder
import Reql.Proofs.Text.Readable
import Reql.Proofs.Text.Quoted
import Reql.Proofs.Double.Plain
import Reql.Proofs.Operation
import Reql.Proofs.Datum
import Reql.Proofs.Term.Text
import Reql.Proofs.Text.Lines
import Reql.Proofs.Term.Tree
import Reql.Proofs.Double.Nearest
import Reql.Proofs.Json.Exchange
import Reql.Proofs.Expr.Tokens
import Reql.Proofs.Command.Verdict
