import Dataflow.Transfer.Basic

/-!
# Transfer functions by kind of node

A visitor has one function for every kind of node. Each of them is the identity unless it is given,
so an analysis gives those that its domain is about.
-/

namespace Dataflow

structure Visitor (V S : Type) [DecidableEq V] [ValueDomain V] where
  localVariable : String → NodeInput V S → NodeResult V S := fun _ i => i.unchanged
  literal : Literal → NodeInput V S → NodeResult V S := fun _ i => i.unchanged
  assignment : String → NodeId → NodeInput V S → NodeResult V S := fun _ _ i => i.unchanged
  binary : BinaryOp → NodeId → NodeId → NodeInput V S → NodeResult V S := fun _ _ _ i => i.unchanged
  unary : UnaryOp → NodeId → NodeInput V S → NodeResult V S := fun _ _ i => i.unchanged
  invocation : String → Option NodeId → List NodeId → NodeInput V S → NodeResult V S :=
    fun _ _ _ i => i.unchanged
  fieldAccess : NodeId → String → NodeInput V S → NodeResult V S := fun _ _ i => i.unchanged
  creation : String → List NodeId → NodeInput V S → NodeResult V S := fun _ _ i => i.unchanged
  returns : Option NodeId → NodeInput V S → NodeResult V S := fun _ i => i.unchanged
  throws : NodeId → NodeInput V S → NodeResult V S := fun _ i => i.unchanged
  marker : String → NodeInput V S → NodeResult V S := fun _ i => i.unchanged

/-- Visits a node by its kind. -/
def Visitor.visit {V S : Type} [DecidableEq V] [ValueDomain V] (v : Visitor V S)
    (i : NodeInput V S) : NodeResult V S :=
  match i.node.kind with
  | .localVariable name => v.localVariable name i
  | .literal value => v.literal value i
  | .assignment target value => v.assignment target value i
  | .binary op lhs rhs => v.binary op lhs rhs i
  | .unary op operand => v.unary op operand i
  | .invocation method receiver arguments => v.invocation method receiver arguments i
  | .fieldAccess receiver field => v.fieldAccess receiver field i
  | .creation className arguments => v.creation className arguments i
  | .returns value => v.returns value i
  | .throws exception => v.throws exception i
  | .marker label => v.marker label i

end Dataflow
