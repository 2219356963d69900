import Dimensional.Http.Service
import Dimensional.Json.Quantity
import Dimensional.Main
import Dimensional.Proofs.CommandLine.Precedence
import Dimensional.Proofs.Dimension.Algebra
import Dimensional.Proofs.Dimension.Inverse
import Dimensional.Proofs.Dimension.Obtained
import Dimensional.Proofs.Dimension.ReadBack
import Dimensional.Proofs.Expression.Composition
import Dimensional.Proofs.Expression.Display
import Dimensional.Proofs.Expression.Lookahead
import Dimensional.Proofs.Expression.Recovery
import Dimensional.Proofs.Expression.Surface
import Dimensional.Proofs.Expression.Tokenization
import Dimensional.Proofs.Expression.Writing
import Dimensional.Proofs.Http.History
import Dimensional.Proofs.Http.Posting
import Dimensional.Proofs.Json.Compact
import Dimensional.Proofs.Json.Decoding
import Dimensional.Proofs.Json.Diagnostic
import Dimensional.Proofs.Json.Reordering
import Dimensional.Proofs.Json.RoundTrip
import Dimensional.Proofs.Json.UnitSystem
import Dimensional.Proofs.Quantity.Root
import Dimensional.Proofs.Report.Marks
import Dimensional.Proofs.Resolution.BaseUnits
import Dimensional.Proofs.Resolution.Exponents
import Dimensional.Proofs.Resolution.History
import Dimensional.Proofs.Resolution.Locality
import Dimensional.Proofs.Resolution.Malformed
import Dimensional.Proofs.Resolution.PathSum
import Dimensional.Proofs.Resolution.Spacing
import Dimensional.Proofs.Resolution.Wording
import Dimensional.Proofs.Resolver.EntryPoints
import Dimensional.Proofs.UnitSystem.Rearrangement
