import MaterialGraph.Json.Parser
import MaterialGraph.Proofs.Ascending
import MaterialGraph.Proofs.Attributes
import MaterialGraph.Proofs.Constants
import MaterialGraph.Proofs.Dangling
import MaterialGraph.Proofs.Failure
import MaterialGraph.Proofs.Nesting
import MaterialGraph.Proofs.Order
import MaterialGraph.Proofs.Quoting
import MaterialGraph.Proofs.Recursion
import MaterialGraph.Proofs.Retries
import MaterialGraph.Proofs.Settings
import MaterialGraph.Proofs.Switchless
import MaterialGraph.Proofs.Transparency
import MaterialGraph.Proofs.TypeRows
import MaterialGraph.Proofs.Widths
