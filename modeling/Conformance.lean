import Conformance.Text.Segments
import Conformance.Text.Quoted
import Conformance.Text.Octets
import Conformance.Number.Shortest
import Conformance.Number.Reading
import Conformance.Value.Equality
import Conformance.Value.Hashing
import Conformance.Value.Order
import Conformance.Fault
import Conformance.Layout
import Conformance.Value.Pretty
import Conformance.Verification.Call
import Conformance.Verification.FirstError
import Conformance.Verification.Verify
import Conformance.Construct
import Conformance.Check
import Conformance.Fault.Message
import Conformance.Model
import Conformance.Catalogue
import Conformance.Session.Expression
import Conformance.Session.Operation
import Conformance.Proofs.Conformity
import Conformance.Proofs.Agreement
import Conformance.Proofs.FirstFault
import Conformance.Proofs.Recording
import Conformance.Proofs.Passes
import Conformance.Proofs.Overriding
import Conformance.Proofs.Reporting
import Conformance.Proofs.Enforcement
import Conformance.Proofs.Amplification
import Conformance.Proofs.Fitting
import Conformance.Proofs.Logging
import Conformance.Proofs.Precedence
import Conformance.Proofs.Sameness
import Conformance.Proofs.Handing
import Conformance.Proofs.Refusing
import Conformance.Proofs.Judging
import Conformance.Proofs.Widening
import Conformance.Proofs.Visiting
import Conformance.Proofs.Naming
import Conformance.Proofs.Searching
import Conformance.Proofs.Quoting
import Conformance.Proofs.Hashing
import Conformance.Proofs.Identity
