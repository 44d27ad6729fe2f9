import Dataflow.Domain.Widening

/-!
# Settings of an analysis
-/

namespace Dataflow

/-- The order in which queued blocks are visited. -/
inductive WorklistOrder
  | reversePostorder
  | fifo
  deriving DecidableEq

/-- What becomes of a graph with code that the entry does not reach. -/
inductive DeadBlockPolicy
  | skip
  | reject
  deriving DecidableEq

structure AnalysisConfig where
  /-- A run fails when it would visit a block more often than this. -/
  maxBlockVisits : Option Nat := some 1000
  widening : Widening := .never
  order : WorklistOrder := .reversePostorder
  deadBlocks : DeadBlockPolicy := .skip
  /-- Whether to keep the state before every node, and not at blocks only. -/
  recordNodeStores : Bool := false
  deriving DecidableEq

/-- Whether a block that has been visited so often has been visited too often. -/
def AnalysisConfig.exceeded (c : AnalysisConfig) (visits : Nat) : Bool :=
  c.maxBlockVisits.any (· < visits)

/-- A change of one setting. -/
inductive ConfigChange
  | maxBlockVisits (cap : Option Nat)
  | widening (widening : Widening)
  | order (order : WorklistOrder)
  | deadBlocks (policy : DeadBlockPolicy)
  | recordNodeStores (record : Bool)

def AnalysisConfig.apply (c : AnalysisConfig) : ConfigChange → AnalysisConfig
  | .maxBlockVisits cap => { c with maxBlockVisits := cap }
  | .widening w => { c with widening := w }
  | .order o => { c with order := o }
  | .deadBlocks policy => { c with deadBlocks := policy }
  | .recordNodeStores record => { c with recordNodeStores := record }

/-- The settings before any change and after each of them. -/
def AnalysisConfig.history (c : AnalysisConfig) : List ConfigChange → List AnalysisConfig
  | [] => [c]
  | change :: rest => c :: (c.apply change).history rest

end Dataflow
