import QueryStubs.Main
import QueryStubs.Stub.Generate
import QueryStubs.Proofs.Written.Parsed
import QueryStubs.Proofs.Suppression.First
import QueryStubs.Proofs.Faultless.Made
import QueryStubs.Proofs.Faultless.Signatures
import QueryStubs.Proofs.Faultless.Functions
import QueryStubs.Proofs.Twin.Mirrors
import QueryStubs.Proofs.Twin.Terms
import QueryStubs.Proofs.Twin.Types
import QueryStubs.Proofs.Twin.Declarations
import QueryStubs.Proofs.Twin.Module
import QueryStubs.Proofs.Respaced.Source
import QueryStubs.Proofs.Respaced.Shown
import QueryStubs.Proofs.Respaced.Irrelevant
import QueryStubs.Proofs.Segments.Alone
import QueryStubs.Proofs.Segments.Joined
import QueryStubs.Proofs.Segments.Isolated
import QueryStubs.Proofs.Emission.Rule
import QueryStubs.Proofs.Emission.Shape
import QueryStubs.Proofs.Command.Agreement
import QueryStubs.Proofs.Opaque.Irrelevant
import QueryStubs.Proofs.Command.Options
import QueryStubs.Proofs.Command.Words
import QueryStubs.Proofs.Command.Prediction
import QueryStubs.Proofs.Faultless.Texts
import QueryStubs.Proofs.Faultless.Outlines
import QueryStubs.Proofs.Lenient.Yields
import QueryStubs.Proofs.Lenient.Types
import QueryStubs.Proofs.Lenient.Functions
import QueryStubs.Proofs.Lenient.Prolog
import QueryStubs.Proofs.Lenient.WellFormed
import QueryStubs.Proofs.Scan.Parens
import QueryStubs.Proofs.Suppression.Stable
import QueryStubs.Proofs.Written.Literals
import QueryStubs.Proofs.Opaque.Excerpts
import QueryStubs.Proofs.Recovery.Underway
import QueryStubs.Proofs.Recovery.Skipped
import QueryStubs.Proofs.Recovery.Unheard
import QueryStubs.Proofs.Recovery.Declarations
import QueryStubs.Proofs.Recovery.Resumed
import QueryStubs.Proofs.Suppression.Covered
import QueryStubs.Proofs.Reports.Account
import QueryStubs.Proofs.Reports.Tells
import QueryStubs.Proofs.Reports.Declarations
import QueryStubs.Proofs.Reports.Steady
import QueryStubs.Proofs.Reports.Places
import QueryStubs.Proofs.Reports.Ends
import QueryStubs.Proofs.Reports.Rounds
import QueryStubs.Proofs.Reports.Ranges
import QueryStubs.Proofs.Reports.Order
import QueryStubs.Proofs.Reports.Shown
import QueryStubs.Proofs.Reports.Rendered
import QueryStubs.Proofs.Reports.Course
import QueryStubs.Proofs.Brackets.Partners
import QueryStubs.Proofs.Brackets.Values
import QueryStubs.Proofs.Brackets.QueryBody
import QueryStubs.Proofs.Faultless.Inside
import QueryStubs.Proofs.Faultless.Edges
import QueryStubs.Proofs.Warnings.Names
import QueryStubs.Proofs.Warnings.Declarations
import QueryStubs.Proofs.Warnings.Modules
import QueryStubs.Proofs.Emission.Interleaved
import QueryStubs.Proofs.Emission.Colored
import QueryStubs.Proofs.Emission.Tables
import QueryStubs.Proofs.Text.Positions
import QueryStubs.Proofs.Scan.Comments
import QueryStubs.Proofs.Scan.Nesting
import QueryStubs.Proofs.Text.Words
