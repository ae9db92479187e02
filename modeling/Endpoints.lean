import Endpoints.Main
import Endpoints.Json.Reader
import Endpoints.Proofs.Schema.Snapshots
import Endpoints.Proofs.Route.Normalization
import Endpoints.Proofs.Resolution.Placeholders
import Endpoints.Proofs.Resolution.Failures
import Endpoints.Proofs.Resolution.Methods
import Endpoints.Proofs.Json.RoundTrip
import Endpoints.Proofs.Resolution.AttachmentOrder
import Endpoints.Proofs.Resolution.TextualValues
import Endpoints.Proofs.Annotation.Edits
import Endpoints.Proofs.Resolution.FedBack
import Endpoints.Proofs.Action.Reloading
import Endpoints.Proofs.CommandLine.Sinks
import Endpoints.Proofs.Route.Separators
import Endpoints.Proofs.Parameter.Declarations
import Endpoints.Proofs.Annotation.Inlining
import Endpoints.Proofs.Resolution.TypeTokens
import Endpoints.Proofs.Operation.Freezing
import Endpoints.Proofs.Target.ShortClass
