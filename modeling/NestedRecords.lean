import NestedRecords.Inference
import NestedRecords.Number.Shortest
import NestedRecords.Proofs.Diagnostic.Carets
import NestedRecords.Proofs.Schema.RoundTrip
import NestedRecords.Proofs.Schema.Spelling
import NestedRecords.Proofs.Unpack.Batches
import NestedRecords.Proofs.Unpack.Strategies
import NestedRecords.Proofs.Unpack.Separators
import NestedRecords.Proofs.Unpack.Wrapping
import NestedRecords.Proofs.Unpack.Undeclared
import NestedRecords.Proofs.Unpack.MissingLeaves
import NestedRecords.Proofs.Unpack.Reordering
import NestedRecords.Proofs.Inference.Unpacking
import NestedRecords.Proofs.Inference.Order
import NestedRecords.Proofs.Inference.Monotonicity
import NestedRecords.Proofs.Plan.Deferral
import NestedRecords.Proofs.Plan.FullPaths
import NestedRecords.Proofs.Plan.Visits
import NestedRecords.Proofs.Token.Rendering
import NestedRecords.Proofs.Schema.Completion
import NestedRecords.Proofs.Schema.Locating
import NestedRecords.Proofs.Schema.Slices
import NestedRecords.Proofs.Frame.Regularity
import NestedRecords.Proofs.Frame.Commuting
import NestedRecords.Proofs.Frame.Ndjson
import NestedRecords.Proofs.Frame.Origins
import NestedRecords.Proofs.Text.Slicing
