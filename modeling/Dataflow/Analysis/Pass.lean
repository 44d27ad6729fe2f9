import Dataflow.Transfer.Basic

/-!
# Passes over a block

One visit of a block: its nodes are visited in order, each from the joined state after the one
before it, and the block then has an outflow and sends a state along each of its edges. All of it
is a function of the block, the state at its entry and the values of nodes visited earlier.
-/

namespace Dataflow

/-- One visit of one node. -/
structure NodeVisit (V S : Type) where
  node : Node
  state : S
  /-- The values of the operands at that time. -/
  operands : List (Option V)
  result : NodeResult V S
  notes : List Note

variable {V S : Type}

/-- The input of a visit. -/
def Transfer.visitNode (t : Transfer V S) (nodes : Array Node) (values : Table V) (state : S)
    (n : Node) : NodeVisit V S :=
  let input : NodeInput V S := ⟨n, nodes, state, values⟩
  ⟨n, state, n.kind.operands.map input.value?, t.visit input, t.notes input⟩

/-- Visits nodes in order; each of them sees the values of those before it. -/
def Transfer.pass [DecidableEq S] [AbstractDomain S] (t : Transfer V S) (nodes : Array Node) :
    Table V → S → List Node → List (NodeVisit V S)
  | _, _, [] => []
  | values, state, n :: rest =>
    let visit := t.visitNode nodes values state n
    visit :: t.pass nodes (values.insert n.id visit.result.value) visit.result.outflow.joined rest

/-- The state in which an exception of this type leaves a node: the one that goes with it, or the
state before the node. -/
def NodeVisit.atThrow (e : ExceptionType) (v : NodeVisit V S) : S :=
  (v.result.thrown.get? e).getD v.state

namespace Pass

variable [DecidableEq S] [AbstractDomain S]

/-- The state after the last visit; without one, the state at the entry. -/
def finalState (entry : S) (visits : List (NodeVisit V S)) : S :=
  match visits.getLast? with
  | some v => v.result.outflow.joined
  | none => entry

/-- The outflow of the last visit as one state for either outcome. -/
def branches (entry : S) (visits : List (NodeVisit V S)) : S × S :=
  match visits.getLast? with
  | some v => (v.result.outflow.thenState, v.result.outflow.elseState)
  | none => (entry, entry)

/-- The join, from the first node on, of the states in which an exception may leave the block. -/
def thrownState (entry : S) (visits : List (NodeVisit V S)) (e : ExceptionType) : S :=
  match visits.map (NodeVisit.atThrow e) with
  | [] => entry
  | first :: rest => rest.foldl join first

/-- The outflow of a block: of a conditional block always one state for either outcome, and of any
other block a single state. -/
def outflow (shape : BlockShape) (entry : S) (visits : List (NodeVisit V S)) : Outflow S :=
  match shape with
  | .conditional .. => .split (branches entry visits).1 (branches entry visits).2
  | _ => .single (finalState entry visits)

end Pass

/-- What a block does on one of its edges. -/
inductive Sending (S : Type)
  | normal (target : BlockId) (state : S)
  /-- The flow rule of the edge lets nothing through. -/
  | withheld (branch : Branch) (rule : FlowRule)
  | thrown (exception : ExceptionType) (target : BlockId) (state : S)
  deriving DecidableEq

namespace Sending

variable [DecidableEq S] [AbstractDomain S]

def ofBranch (branch : Branch) (edge : BranchEdge) (thenState elseState : S) : Sending S :=
  match edge.rule.select branch thenState elseState with
  | some state => normal edge.target state
  | none => withheld branch edge.rule

/-- The sendings of a pass over a block, in order. -/
def all (shape : BlockShape) (entry : S) (visits : List (NodeVisit V S)) : List (Sending S) :=
  match shape with
  | .exit | .exceptionalExit => []
  | .entry next | .regular _ next => [normal next (Pass.finalState entry visits)]
  | .conditional _ thenEdge elseEdge =>
    let (t, e) := Pass.branches entry visits
    [ofBranch .thenBranch thenEdge t e, ofBranch .elseBranch elseEdge t e]
  | .exceptional _ next handlers =>
    normal next (Pass.finalState entry visits) ::
      handlers.entries.map fun (exception, target) =>
        thrown exception target (Pass.thrownState entry visits exception)

end Sending

end Dataflow
