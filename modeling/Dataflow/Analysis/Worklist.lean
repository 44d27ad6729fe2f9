import Dataflow.Analysis.Config
import Dataflow.Graph.Basic

/-!
# Worklists

The blocks that wait for a visit, the next one first. In reverse postorder they stand by their
position in that order; otherwise they stand as they came.
-/

namespace Dataflow.Worklist

/-- Puts a block before the first one of a higher rank; of two blocks of one rank the lower number
comes first. A block that is there already is not added again. -/
def insertByRank (rank : BlockId → Nat) (b : BlockId) : List BlockId → List BlockId
  | [] => [b]
  | c :: rest =>
    if rank b < rank c ∨ rank b = rank c ∧ b < c then b :: c :: rest
    else if b = c then c :: rest
    else c :: insertByRank rank b rest

/-- The queue with one more block. -/
def push (order : WorklistOrder) (g : Graph) (b : BlockId) (queue : List BlockId) : List BlockId :=
  match order with
  | .reversePostorder => insertByRank (g.order.idxOf ·) b queue
  | .fifo => queue ++ [b]

end Dataflow.Worklist
