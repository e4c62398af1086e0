import Injector.Json.Reader
import Injector.Json.Plans
import Injector.Generation
import Injector.Proofs.Plan.HoistTrees
import Injector.Proofs.Plan.HoistBinders
import Injector.Proofs.Planner.Scoping
import Injector.Proofs.Planner.Deferral
import Injector.Proofs.Planner.Capture
import Injector.Proofs.Planner.Endless
import Injector.Proofs.Planner.Sharing
import Injector.Proofs.Planner.Callers
import Injector.Proofs.Planner.Keeping
import Injector.Proofs.Generation.Sessions
import Injector.Proofs.Catalog.Overriding
import Injector.Proofs.Planner.Assisted
import Injector.Proofs.Planner.FirstOrder
import Injector.Proofs.Catalog.Access
import Injector.Proofs.Planner.Instantiation
import Injector.Proofs.Generation.Outcome
import Injector.Proofs.Catalog.Routes
import Injector.Proofs.Catalog.ScopesApart
import Injector.Proofs.Catalog.Ancestry
import Injector.Proofs.Json.ReadingBack
import Injector.Proofs.Catalog.Promotion
import Injector.Proofs.Catalog.Wholes
import Injector.Proofs.BuildStack
import Injector.Proofs.Planner.Balance
import Injector.Proofs.Planner.Holding
import Injector.Proofs.Planner.Memory
import Injector.Proofs.Planner.Traces
import Injector.Proofs.Planner.Generics
import Injector.Proofs.Ty.Completeness
import Injector.Proofs.Program.Inheritance
import Injector.Proofs.Plan.Closedness
import Injector.Proofs.Planner.Selection
import Injector.Proofs.ScopeConflicts
import Injector.Proofs.Plan.Outline
import Injector.Proofs.Ty.Sequence
import Injector.Proofs.FieldPath
