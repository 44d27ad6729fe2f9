import Dataflow.Domain.Basic
import Dataflow.Graph.Basic
import Dataflow.Table

/-!
# Transfer functions

What an analysis says about one node: from the state before it and the values of its operands to a
value, the state or states after it, and the states in which it may throw.
-/

namespace Dataflow

/-- The state after a node or a block, or one for either outcome of a test. -/
inductive Outflow (S : Type)
  | single (state : S)
  | split (thenState elseState : S)
  deriving DecidableEq

namespace Outflow

variable {S : Type}

/-- One state for all outcomes. -/
def joined [DecidableEq S] [AbstractDomain S] : Outflow S → S
  | single s => s
  | split t e => join t e

def thenState : Outflow S → S
  | single s => s
  | split t _ => t

def elseState : Outflow S → S
  | single s => s
  | split _ e => e

def isSplit : Outflow S → Bool
  | single _ => false
  | split _ _ => true

end Outflow

/-- What a transfer function sees of a node. -/
structure NodeInput (V S : Type) where
  node : Node
  nodes : Array Node
  state : S
  values : Table V

namespace NodeInput

variable {V S : Type}

def node? (i : NodeInput V S) (n : NodeId) : Option Node :=
  i.nodes[n]?

/-- The variable that a node reads, if it is a plain read of a variable. -/
def localName? (i : NodeInput V S) (n : NodeId) : Option String :=
  (i.node? n).bind (·.kind.localName?)

def value? (i : NodeInput V S) (n : NodeId) : Option V :=
  i.values.get? n

/-- The value of a node, `top` if it has none yet. -/
def valueOrTop [DecidableEq V] [ValueDomain V] (i : NodeInput V S) (n : NodeId) : V :=
  (i.value? n).getD top

end NodeInput

structure NodeResult (V S : Type) where
  value : V
  outflow : Outflow S
  /-- The states in which the node throws; for a type without one it is the state before. -/
  thrown : ExceptionMap S

namespace NodeResult

variable {V S : Type}

def single (value : V) (state : S) : NodeResult V S :=
  ⟨value, .single state, .empty⟩

def split (value : V) (thenState elseState : S) : NodeResult V S :=
  ⟨value, .split thenState elseState, .empty⟩

def withThrown (r : NodeResult V S) (e : ExceptionType) (state : S) : NodeResult V S :=
  { r with thrown := r.thrown.insert e state }

end NodeResult

/-- The identity: the state is unchanged and the value unknown. -/
def NodeInput.unchanged {V S : Type} [DecidableEq V] [ValueDomain V] (i : NodeInput V S) :
    NodeResult V S :=
  .single top i.state

/-- A remark of a transfer function on a node, with its named values. -/
structure Note where
  message : String
  fields : List (String × String)
  deriving DecidableEq

/-- The answers of an analysis. A visit is a function of what it sees of its node, and so are the
remarks that go with it. An analysis that answers by anything else, such as what earlier visits left
behind in it, is not covered. -/
structure Transfer (V S : Type) where
  /-- The state at the entry. -/
  initial : Graph → S
  visit : NodeInput V S → NodeResult V S
  /-- The remarks that go with a visit, in order. -/
  notes : NodeInput V S → List Note

end Dataflow
