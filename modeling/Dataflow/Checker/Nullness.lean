import Dataflow.Analysis.Solution
import Dataflow.Domain.Nullness
import Dataflow.Domain.VarStore
import Dataflow.Transfer.Visitor

/-!
# Nullness

Tracks which variables may be null. A comparison with null refines the variable on the branch where
it is not null, and a variable that has been dereferenced is not null from there on.
-/

namespace Dataflow

/-- Parameters that are never null at the entry, and methods that never return null. -/
structure NullnessChecker where
  parameters : NameSet := .empty
  methods : NameSet := .empty

namespace NullnessChecker

abbrev Input := NodeInput Nullness (VarStore Nullness)

abbrev Result := NodeResult Nullness (VarStore Nullness)

def initial (c : NullnessChecker) (g : Graph) : VarStore Nullness :=
  c.parameters.toList.foldl (fun s x => s.set x .nonNull) (.topFor g.variableNames.toList)

/-- The store after a node has been dereferenced. -/
def dereference (i : Input) (receiver : NodeId) : VarStore Nullness :=
  match i.localName? receiver with
  | some x => i.state.set x .nonNull
  | none => i.state

def isNull (i : Input) (n : NodeId) : Bool :=
  (i.node? n).any fun node => node.kind = .literal .null

/-- The variable that is compared with null. -/
def nullTest? (i : Input) (lhs rhs : NodeId) : Option String :=
  if isNull i rhs then i.localName? lhs
  else if isNull i lhs then i.localName? rhs
  else none

def binary (op : BinaryOp) (lhs rhs : NodeId) (i : Input) : Result :=
  match op, nullTest? i lhs rhs with
  | .notEq, some x => .split .nonNull (i.state.set x .nonNull) i.state
  | .eq, some x => .split .nonNull i.state (i.state.set x .nonNull)
  | _, _ => .single .nonNull i.state

def visitor (c : NullnessChecker) : Visitor Nullness (VarStore Nullness) where
  localVariable x i := .single ((i.state.get? x).getD .nullable) i.state
  literal value i := .single (if value = .null then .nullable else .nonNull) i.state
  assignment x n i := .single (i.valueOrTop n) (i.state.set x (i.valueOrTop n))
  binary := binary
  unary _ _ i := .single .nonNull i.state
  invocation method receiver _ i :=
    .single (if c.methods.contains method then .nonNull else .nullable)
      (receiver.elim i.state (dereference i))
  fieldAccess receiver _ i := .single .nullable (dereference i receiver)
  creation _ _ i := .single .nonNull i.state

/-- A refinement is remarked on. -/
def notes (i : Input) : List Note :=
  let remark (branch : String) (lhs rhs : NodeId) : List Note :=
    (nullTest? i lhs rhs).toList.map fun x => ⟨s!"non-null on {branch} branch", [("var", x)]⟩
  match i.node.kind with
  | .binary .notEq lhs rhs => remark "then" lhs rhs
  | .binary .eq lhs rhs => remark "else" lhs rhs
  | _ => []

def transfer (c : NullnessChecker) : Transfer Nullness (VarStore Nullness) where
  initial := c.initial
  visit := c.visitor.visit
  notes := notes

/-- The node that a node dereferences. -/
def dereferenced? : NodeKind → Option NodeId
  | .fieldAccess receiver _ => some receiver
  | .invocation _ receiver _ => receiver
  | _ => none

/-- Whether a node dereferences a value that may be null. -/
def mayDereferenceNull (r : Solution Nullness (VarStore Nullness)) (n : Node) : Bool :=
  (dereferenced? n.kind).any fun receiver => r.value? receiver = some .nullable

/-- The reachable nodes that may dereference null, in order. -/
def possibleNullDereferences (g : Graph) (r : Solution Nullness (VarStore Nullness)) :
    List NodeId :=
  (g.nodes.toList.filter fun n => g.isReachable n.block && mayDereferenceNull r n).map (·.id)

end NullnessChecker

end Dataflow
