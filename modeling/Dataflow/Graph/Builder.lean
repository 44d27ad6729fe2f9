import Dataflow.Graph.Basic
import Dataflow.Graph.Error

/-!
# Building graphs

A builder starts with the entry and the two exits. Blocks are added first and wired afterwards, so
an edge can go to a block that does not exist yet. A misused operation changes nothing but is kept,
the first one only, and `Builder.build` reports it; otherwise `build` reports the first operand and
then the first block that is not in order.
-/

namespace Dataflow

/-- A block whose edges may still be missing. -/
inductive Draft
  | entry (next : Option BlockId)
  | exit
  | exceptionalExit
  | regular (nodes : List NodeId) (next : Option BlockId)
  | conditional (nodes : List NodeId) (thenTarget elseTarget : Option BlockId)
      (thenRule elseRule : FlowRule)
  | exceptional (nodes : List NodeId) (next : Option BlockId) (handlers : ExceptionMap BlockId)
  deriving DecidableEq

namespace Draft

def emptyRegular : Draft :=
  regular [] none

def emptyConditional : Draft :=
  conditional [] none none .eachToEach .eachToEach

def emptyExceptional : Draft :=
  exceptional [] none .empty

def kind : Draft → BlockKind
  | entry _ => .special .entry
  | exit => .special .exit
  | exceptionalExit => .special .exceptionalExit
  | regular .. => .regular
  | conditional .. => .conditional
  | exceptional .. => .exceptional

/-- The draft with one more node, if its kind holds nodes. -/
def pushNode? (n : NodeId) : Draft → Option Draft
  | regular nodes next => some (regular (nodes ++ [n]) next)
  | conditional nodes t e tr er => some (conditional (nodes ++ [n]) t e tr er)
  | exceptional nodes next handlers => some (exceptional (nodes ++ [n]) next handlers)
  | entry _ | exit | exceptionalExit => none

/-- The draft with its normal edge set, if its kind has one. -/
def connect? (target : BlockId) : Draft → Option Draft
  | entry _ => some (entry (some target))
  | regular nodes _ => some (regular nodes (some target))
  | exceptional nodes _ handlers => some (exceptional nodes (some target) handlers)
  | conditional .. | exit | exceptionalExit => none

def connectBranches? (thenTarget elseTarget : BlockId) : Draft → Option Draft
  | conditional nodes _ _ tr er =>
    some (conditional nodes (some thenTarget) (some elseTarget) tr er)
  | _ => none

def setRule? (branch : Branch) (rule : FlowRule) : Draft → Option Draft
  | conditional nodes t e tr er =>
    match branch with
    | .thenBranch => some (conditional nodes t e rule er)
    | .elseBranch => some (conditional nodes t e tr rule)
  | _ => none

def addHandler? (e : ExceptionType) (target : BlockId) : Draft → Option Draft
  | exceptional nodes next handlers => some (exceptional nodes next (handlers.insert e target))
  | _ => none

/-- The target of an edge that has to be there and to lead to one of `count` blocks. -/
def wired (count : Nat) (id : BlockId) (kind : BlockKind) (edge : EdgeRole) :
    Option BlockId → Except GraphError BlockId
  | none => .error (.missingSuccessor id kind edge)
  | some target =>
    if target < count then .ok target else .error (.danglingSuccessor id target)

/-- The finished block with this number in a graph of `count` blocks. -/
def finish (count : Nat) (id : BlockId) : Draft → Except GraphError BlockShape
  | entry next => do
    let next ← wired count id (.special .entry) .normal next
    return .entry next
  | exit => return .exit
  | exceptionalExit => return .exceptionalExit
  | regular nodes next => do
    let next ← wired count id .regular .normal next
    return .regular nodes next
  | conditional nodes thenTarget elseTarget thenRule elseRule =>
    match nodes with
    | [condition] => do
      let thenTarget ← wired count id .conditional (.branch .thenBranch) thenTarget
      let elseTarget ← wired count id .conditional (.branch .elseBranch) elseTarget
      return .conditional condition ⟨thenTarget, thenRule⟩ ⟨elseTarget, elseRule⟩
    | _ => .error (.conditionalArity id)
  | exceptional nodes next handlers => do
    let next ← wired count id .exceptional .normal next
    match handlers.values.find? (count ≤ ·) with
    | some target => .error (.danglingSuccessor id target)
    | none => return .exceptional nodes next handlers

end Draft

structure Builder where
  drafts : Array Draft
  nodes : Array Node
  /-- The first misuse. -/
  error : Option GraphError

namespace Builder

def start : Builder where
  drafts := #[.entry none, .exit, .exceptionalExit]
  nodes := #[]
  error := none

/-- Keeps the first misuse; later ones are usually consequences of it. -/
def misuse (b : Builder) (e : GraphError) : Builder :=
  { b with error := b.error.or (some e) }

def addBlock (b : Builder) (draft : Draft) : Builder :=
  { b with drafts := b.drafts.push draft }

/-- Changes one draft; where the change does not apply to its kind, `wrongKind` says why. -/
def revise (b : Builder) (block : BlockId) (change : Draft → Option Draft)
    (wrongKind : BlockKind → GraphError) : Builder :=
  match b.drafts[block]? with
  | none => b.misuse (.unknownBlock block)
  | some draft =>
    match change draft with
    | some draft => { b with drafts := b.drafts.setIfInBounds block draft }
    | none => b.misuse (wrongKind draft.kind)

/-- The node is added to the graph in any case, and to the block if that can hold it. -/
def pushNode (b : Builder) (block : BlockId) (kind : NodeKind) : Builder :=
  let id := b.nodes.size
  { b with nodes := b.nodes.push ⟨id, block, kind⟩ }.revise block (Draft.pushNode? id)
    fun _ => .nodesInSpecialBlock block

def connect (b : Builder) (source target : BlockId) : Builder :=
  b.revise source (Draft.connect? target) (.wrongBlockKind source .withNormalEdge)

def connectBranches (b : Builder) (block thenTarget elseTarget : BlockId) : Builder :=
  b.revise block (Draft.connectBranches? thenTarget elseTarget)
    (.wrongBlockKind block .conditional)

def setRule (b : Builder) (block : BlockId) (branch : Branch) (rule : FlowRule) : Builder :=
  b.revise block (Draft.setRule? branch rule) (.wrongBlockKind block .conditional)

def addHandler (b : Builder) (block : BlockId) (e : ExceptionType) (target : BlockId) : Builder :=
  b.revise block (Draft.addHandler? e target) (.wrongBlockKind block .exceptional)

/-- What is wrong with one operand of a node in a graph of `count` nodes. -/
def operandFault? (count : Nat) (node operand : NodeId) : Option GraphError :=
  if count ≤ operand then some (.danglingOperand node operand)
  else if node ≤ operand then some (.operandOrder node operand)
  else none

/-- The first bad operand, by node and then by place. -/
def firstOperandFault? (b : Builder) : Option GraphError :=
  b.nodes.toList.findSome? fun n => n.kind.operands.findSome? (operandFault? b.nodes.size n.id)

/-- All drafts finished, or the fault of the first one that cannot be. -/
def finishedBlocks (b : Builder) : Except GraphError (List Block) :=
  b.drafts.toList.zipIdx.mapM fun (draft, id) => do
    let shape ← draft.finish b.drafts.size id
    return ⟨id, shape⟩

def build (b : Builder) : Except GraphError Graph :=
  match b.error.or b.firstOperandFault? with
  | some e => .error e
  | none => do
    let blocks ← b.finishedBlocks
    return .ofTables blocks.toArray b.nodes

end Builder

/-- One step of building. -/
inductive Operation
  | addRegular
  | addConditional
  | addExceptional
  | pushNode (block : BlockId) (kind : NodeKind)
  | connect (source target : BlockId)
  | connectBranches (block thenTarget elseTarget : BlockId)
  | setRule (block : BlockId) (branch : Branch) (rule : FlowRule)
  | addHandler (block : BlockId) (exception : ExceptionType) (target : BlockId)
  deriving DecidableEq

/-- The number that an operation hands out. -/
inductive Added
  | block (id : BlockId)
  | node (id : NodeId)
  deriving DecidableEq

def Added.text : Added → String
  | block id => id.text
  | node id => id.text

namespace Operation

def apply (b : Builder) : Operation → Builder
  | addRegular => b.addBlock .emptyRegular
  | addConditional => b.addBlock .emptyConditional
  | addExceptional => b.addBlock .emptyExceptional
  | pushNode block kind => b.pushNode block kind
  | connect source target => b.connect source target
  | connectBranches block thenTarget elseTarget => b.connectBranches block thenTarget elseTarget
  | setRule block branch rule => b.setRule block branch rule
  | addHandler block exception target => b.addHandler block exception target

def added? (b : Builder) : Operation → Option Added
  | addRegular | addConditional | addExceptional => some (.block b.drafts.size)
  | pushNode _ _ => some (.node b.nodes.size)
  | _ => none

end Operation

namespace Builder

def applyAll (operations : List Operation) : Builder :=
  operations.foldl Operation.apply start

/-- What every operation hands out, in order. -/
def addedBy (b : Builder) : List Operation → List (Option Added)
  | [] => []
  | operation :: rest => operation.added? b :: (operation.apply b).addedBy rest

end Builder

/-- The graph that a sequence of operations builds. -/
def Graph.build (operations : List Operation) : Except GraphError Graph :=
  (Builder.applyAll operations).build

end Dataflow
