import TupleBlob.Scalar
import TupleBlob.Pipeline
import TupleBlob.Session
import TupleBlob.Proofs.Spelling
import TupleBlob.Proofs.Validity
import TupleBlob.Proofs.Order.Reference
import TupleBlob.Proofs.Order.Rank
import TupleBlob.Proofs.Evolution
import TupleBlob.Proofs.Outcome
import TupleBlob.Proofs.Text.Utf8
import TupleBlob.Proofs.Text.Fields
import TupleBlob.Proofs.Text.Scalars
import TupleBlob.Proofs.Canonical
import TupleBlob.Proofs.Text.RoundTrip
import TupleBlob.Proofs.Encoding
import TupleBlob.Proofs.Rebuild
import TupleBlob.Proofs.Json.Scalars
import TupleBlob.Proofs.Json.Items
import TupleBlob.Proofs.Json.Completion
import TupleBlob.Proofs.Json.RoundTrip
import TupleBlob.Proofs.Json.Equality
import TupleBlob.Proofs.Json.Text
import TupleBlob.Proofs.Chains
import TupleBlob.Proofs.Chunks
import TupleBlob.Proofs.Shown
import TupleBlob.Proofs.Order.Deciding
import TupleBlob.Proofs.Order.Overlong
import TupleBlob.Proofs.Evolution.Laws
import TupleBlob.Proofs.Parsed
import TupleBlob.Proofs.Identity
import TupleBlob.Proofs.Readers
import TupleBlob.Proofs.Resuming
import TupleBlob.Proofs.Progress
import TupleBlob.Proofs.NullRuns
import TupleBlob.Proofs.Text.Ambiguity
import TupleBlob.Proofs.Text.Splitting
import TupleBlob.Proofs.Json.Requoting
import TupleBlob.Proofs.Json.Terms
import TupleBlob.Proofs.References
import TupleBlob.Proofs.Truncation
import TupleBlob.Proofs.Sinks
import TupleBlob.Proofs.FirstFault
import TupleBlob.Proofs.Text.Grammar
