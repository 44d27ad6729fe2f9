import Dataflow.Domain.NameSet
import Dataflow.Graph.Block
import Dataflow.Graph.Order

/-!
# Control-flow graphs

A graph owns its blocks and nodes, each found at its number. The first three blocks are the entry,
the exit and the exceptional exit. Graphs come from `Dataflow.Graph.Builder`.
-/

namespace Dataflow

/-- The edges between blocks, without their kinds. -/
def blockSuccessors (blocks : Array Block) (b : BlockId) : List BlockId :=
  (blocks[b]?.map Block.successors).getD []

/-- One turn of `predecessorLists`: the block is pushed onto the list of each of its successors. -/
def addPredecessor (lists : Array (List BlockId)) (block : Block) : Array (List BlockId) :=
  block.successors.foldl (fun lists s => lists.modify s (· ++ [block.id])) lists

/-- The predecessors of every block, gathered in one loop over the blocks. -/
def predecessorLists (blocks : Array Block) : Array (List BlockId) :=
  blocks.foldl addPredecessor (Array.replicate blocks.size [])

def entryBlock : BlockId := 0

def exitBlock : BlockId := 1

def exceptionalExitBlock : BlockId := 2

structure Graph where
  blocks : Array Block
  nodes : Array Node
  /-- The blocks that the entry reaches, in reverse postorder. -/
  order : List BlockId
  order_eq : order = Search.reversePostorder blocks.size (blockSuccessors blocks) entryBlock

namespace Graph

def ofTables (blocks : Array Block) (nodes : Array Node) : Graph where
  blocks := blocks
  nodes := nodes
  order := Search.reversePostorder blocks.size (blockSuccessors blocks) entryBlock
  order_eq := rfl

def block? (g : Graph) (b : BlockId) : Option Block :=
  g.blocks[b]?

def node? (g : Graph) (n : NodeId) : Option Node :=
  g.nodes[n]?

def successors (g : Graph) (b : BlockId) : List BlockId :=
  blockSuccessors g.blocks b

def blockIds (g : Graph) : List BlockId :=
  List.range g.blocks.size

/-- The blocks with an edge to this one, in the order of the loop over the blocks. -/
def predecessors (g : Graph) (b : BlockId) : List BlockId :=
  (predecessorLists g.blocks)[b]?.getD []

def isReachable (g : Graph) (b : BlockId) : Bool :=
  g.order.contains b

/-- The blocks that the entry does not reach, by increasing number. -/
def deadBlocks (g : Graph) : List BlockId :=
  g.blockIds.filter fun b => !g.isReachable b

/-- The dead blocks that hold code; an exit into which nothing flows is no dead code. -/
def deadCode (g : Graph) : List BlockId :=
  g.deadBlocks.filter fun b => ((g.block? b).bind Block.special?).isNone

/-- The variables that some node reads or assigns. -/
def variableNames (g : Graph) : NameSet :=
  .ofList (g.nodes.toList.filterMap (·.kind.accessedName?))

/-- The nodes of a block, in evaluation order. -/
def nodesOf (g : Graph) (b : Block) : List Node :=
  b.nodes.filterMap g.node?

end Graph

end Dataflow
