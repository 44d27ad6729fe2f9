import Dataflow.Analysis.Dump
import Dataflow.Analysis.PostFixpoint
import Dataflow.Analysis.Run
import Dataflow.Checker.Constant
import Dataflow.Checker.Counter
import Dataflow.Checker.Identity
import Dataflow.Checker.Nullness
import Dataflow.Checker.Tabulated
import Dataflow.Checker.Tags
import Dataflow.Config.File
import Dataflow.Config.Text
import Dataflow.Domain.Shrink
import Dataflow.Graph.Builder
import Dataflow.Json.Printer
import Dataflow.Proofs.Ascent
import Dataflow.Proofs.BoundNames
import Dataflow.Proofs.BuiltGraph
import Dataflow.Proofs.Cancellation
import Dataflow.Proofs.CheckerConvergence
import Dataflow.Proofs.CheckerFrames
import Dataflow.Proofs.Consistency
import Dataflow.Proofs.ConstantRising
import Dataflow.Proofs.ConstantSoundness
import Dataflow.Proofs.Correspondence
import Dataflow.Proofs.DefaultVisits
import Dataflow.Proofs.Drafts
import Dataflow.Proofs.ExceptionalEdges
import Dataflow.Proofs.Faults
import Dataflow.Proofs.FoldingLimits
import Dataflow.Proofs.Isolation
import Dataflow.Proofs.LastVisits
import Dataflow.Proofs.LawReport
import Dataflow.Proofs.LawfulDomain
import Dataflow.Proofs.LawfulStores
import Dataflow.Proofs.LeastFixpoint
import Dataflow.Proofs.NullPaths
import Dataflow.Proofs.OrderIndependence
import Dataflow.Proofs.Pointwise
import Dataflow.Proofs.Precision
import Dataflow.Proofs.Recorded
import Dataflow.Proofs.Reevaluation
import Dataflow.Proofs.Script
import Dataflow.Proofs.Shrinking
import Dataflow.Proofs.SinglePass
import Dataflow.Proofs.Statuses
import Dataflow.Proofs.Switches
import Dataflow.Proofs.Visited
import Dataflow.Proofs.WideningChains
import Dataflow.Proofs.WideningEvents
