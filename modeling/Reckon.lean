import Reckon.Expr.Walk
import Reckon.Json.Value
import Reckon.Proofs.Precedence
import Reckon.Session
import Reckon.Proofs.Evaluation
import Reckon.Proofs.FirstError
import Reckon.Proofs.Values
import Reckon.Proofs.Rows
import Reckon.Proofs.Bits
import Reckon.Proofs.Nearest
import Reckon.Proofs.Shortest
import Reckon.Proofs.Lexing
import Reckon.Proofs.Reading
import Reckon.Proofs.Writing
import Reckon.Proofs.Conservation
import Reckon.Proofs.Balance
import Reckon.Proofs.Legible
import Reckon.Proofs.RoundTrip
import Reckon.Proofs.Parentheses
import Reckon.Proofs.Acceptance
import Reckon.Proofs.Cache
import Reckon.Proofs.Calls
import Reckon.Proofs.Distinct
import Reckon.Proofs.Recency
import Reckon.Proofs.Sessions
import Reckon.Proofs.Shape
import Reckon.Proofs.Munch
import Reckon.Proofs.Agreement
import Reckon.Proofs.Operands
import Reckon.Proofs.Splicing
import Reckon.Proofs.Leaves
import Reckon.Proofs.Variables
import Reckon.Proofs.Respelling
import Reckon.Proofs.Renaming
import Reckon.Proofs.Reordering
import Reckon.Proofs.Faults
import Reckon.Proofs.Comparison
import Reckon.Proofs.Division
import Reckon.Proofs.SignedZero
import Reckon.Proofs.Building
import Reckon.Proofs.Broadcasting
import Reckon.Proofs.Spacing
import Reckon.Proofs.Documents
import Reckon.Proofs.Rounding
import Reckon.Proofs.Magnitude
import Reckon.Proofs.Interchange
import Reckon.Proofs.Layers
import Reckon.Proofs.Turns
