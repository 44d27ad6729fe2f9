import Dataflow.Graph.Error

/-!
# Failures of an analysis
-/

namespace Dataflow

inductive AnalysisError
  /-- There is no graph to analyse. -/
  | graph (fault : GraphError)
  /-- The settings refuse dead code. -/
  | unreachableBlock (block : BlockId)
  /-- A block would have been visited more often than the settings allow. -/
  | nonConvergence (block : BlockId) (visits : Nat)
  | cancelled
  deriving DecidableEq

def AnalysisError.message : AnalysisError → String
  | graph fault => s!"malformed control-flow graph: {fault.message}"
  | unreachableBlock block => s!"block {block.text} is unreachable from the entry block"
  | nonConvergence block visits =>
    s!"analysis did not converge: block {block.text} was visited {visits} times"
  | cancelled => "analysis was cancelled"

end Dataflow
