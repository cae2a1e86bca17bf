import Kleym.GoString
import Kleym.Store
import Kleym.Interaction
import Kleym.Patterns
import Kleym.Flags
import Kleym.Trimming
import Kleym.Framing
import Kleym.Json
import Kleym.Objects
import Kleym.Unstructured
import Kleym.Identity
import Kleym.Apimachinery
import Kleym.Gaie
import Kleym.Grammar
import Kleym.Binding
import Kleym.Spirecm
import Kleym.Naming
import Kleym.Drift
import Kleym.Schema
import Kleym.Cluster
import Kleym.Controller
import Kleym.Reconcile
import Kleym.Inspection
import Kleym.StatusReport
import Kleym.Configuration
import Kleym.Bounds
import Kleym.Boundary
import Kleym.Exclusivity
import Kleym.Isolation
import Kleym.Watch
import Kleym.Members
import Kleym.System
import Kleym.History
import Kleym.Taxonomy
import Kleym.Metrics
import Kleym.Custody
import Kleym.Contract
import Kleym.Preservation
import Kleym.Rely
import Kleym.Operator
import Kleym.Answers
import Kleym.Observation
import Kleym.Transitions
import Kleym.Rendering
import Kleym.Publication
import Kleym.Application
import Kleym.Evaluation
import Kleym.Withdrawal
import Kleym.Phases
import Kleym.Safety
import Kleym.Trial
import Kleym.Ownership
import Kleym.Undisturbed
import Kleym.Settlement
import Kleym.Canonical
import Kleym.Conflicts
import Kleym.Planning
import Kleym.Reporting
import Kleym.Outcomes
import Kleym.Stillness
import Kleym.Aftermath
import Kleym.Endings
import Kleym.Quiescence
import Kleym.Traffic
import Kleym.Records
import Kleym.Namespaces
import Kleym.Wakeups
import Kleym.Progress
import Kleym.Convergence
import Kleym.Assessment
import Kleym.Resignation
import Kleym.Decisions
import Kleym.BindingInspection
import Kleym.Commands
import Kleym.Tally
import Kleym.Sources
import Kleym.Provenance
