import Dataflow.Graph.Block

/-!
# Faults of graphs

What can be wrong with a graph that is being built, as causes; `GraphError.message` words them.
-/

namespace Dataflow

/-- The edges that a block may have to have. -/
inductive EdgeRole
  | normal
  | branch (branch : Branch)
  deriving DecidableEq

def EdgeRole.title : EdgeRole → String
  | normal => "normal"
  | branch .thenBranch => "then"
  | branch .elseBranch => "else"

/-- The kinds of blocks that an operation is for. -/
inductive Expectation
  | withNormalEdge
  | conditional
  | exceptional
  deriving DecidableEq

def Expectation.title : Expectation → String
  | withNormalEdge => "regular, exceptional or entry"
  | conditional => "conditional"
  | exceptional => "exceptional"

inductive GraphError
  /-- An edge leads to a block that does not exist. -/
  | danglingSuccessor (source target : BlockId)
  /-- A block was never connected. -/
  | missingSuccessor (block : BlockId) (kind : BlockKind) (edge : EdgeRole)
  /-- A node reads a node that does not exist. -/
  | danglingOperand (node operand : NodeId)
  /-- A node reads itself or a later node. -/
  | operandOrder (node operand : NodeId)
  /-- A node was added to the entry or an exit. -/
  | nodesInSpecialBlock (block : BlockId)
  /-- A conditional block does not hold exactly one node. -/
  | conditionalArity (block : BlockId)
  | wrongBlockKind (block : BlockId) (expected : Expectation) (actual : BlockKind)
  | unknownBlock (block : BlockId)
  deriving DecidableEq

def GraphError.message : GraphError → String
  | danglingSuccessor source target =>
    s!"block {source.text} references successor {target.text}, which is not part of this graph"
  | missingSuccessor block kind edge =>
    s!"{kind.title} block {block.text} has no {edge.title} successor"
  | danglingOperand node operand =>
    s!"node {node.text} references operand {operand.text}, which is not part of this graph"
  | operandOrder node operand =>
    s!"node {node.text} uses operand {operand.text}, which is not evaluated before it"
  | nodesInSpecialBlock block => s!"special block {block.text} cannot hold nodes"
  | conditionalArity block => s!"conditional block {block.text} must hold exactly one node"
  | wrongBlockKind block expected actual =>
    s!"block {block.text} is a {actual.title} block, expected {expected.title}"
  | unknownBlock block => s!"unknown block {block.text}"

end Dataflow
