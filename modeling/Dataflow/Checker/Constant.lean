import Dataflow.Checker.Folding
import Dataflow.Domain.VarStore
import Dataflow.Transfer.Visitor

/-!
# Constant propagation

Variables hold values of the flat lattice over 64-bit integers, with truth values as zero and one.
A test of a variable for equality with a constant refines the variable where the test says that they
are equal.
-/

namespace Dataflow

abbrev Constant := Flat Int64

/-- Entry values of variables; every other variable is unknown at the entry. -/
structure ConstantChecker where
  arguments : VarStore Int64 := .empty

namespace ConstantChecker

abbrev Input := NodeInput Constant (VarStore Constant)

abbrev Result := NodeResult Constant (VarStore Constant)

def initial (c : ConstantChecker) (g : Graph) : VarStore Constant :=
  c.arguments.bindings.foldl (fun s (x, n) => s.set x (.exact n)) (.topFor g.variableNames.toList)

/-- The constant that a node is known to be. -/
def constant? (i : Input) (n : NodeId) : Option Int64 :=
  (i.value? n).bind Flat.value?

/-- The variable and the constant that an operator compares; of two variables with known values the
left one counts as the variable. -/
def comparison? (i : Input) (lhs rhs : NodeId) : Option (String × Int64) :=
  match i.localName? lhs, constant? i rhs with
  | some x, some c => some (x, c)
  | _, _ =>
    match i.localName? rhs, constant? i lhs with
    | some x, some c => some (x, c)
    | _, _ => none

/-- The store where the variable is known to equal the constant. -/
def refine (s : VarStore Constant) (x : String) (c : Int64) : VarStore Constant :=
  s.set x (((s.get? x).getD .top).meet (.exact c))

def binary (op : BinaryOp) (lhs rhs : NodeId) (i : Input) : Result :=
  let value := Folding.binary op (i.valueOrTop lhs) (i.valueOrTop rhs)
  match op, comparison? i lhs rhs with
  | .eq, some (x, c) => .split value (refine i.state x c) i.state
  | .notEq, some (x, c) => .split value i.state (refine i.state x c)
  | _, _ => .single value i.state

def visitor : Visitor Constant (VarStore Constant) where
  localVariable x i := .single ((i.state.get? x).getD .top) i.state
  literal value i :=
    let constant : Constant := match value with
      | .int n => .exact n
      | .bool b => .exact (Folding.ofBool b)
      | _ => .top
    .single constant i.state
  assignment x n i := .single (i.valueOrTop n) (i.state.set x (i.valueOrTop n))
  binary := binary
  unary op n i := .single (Folding.unary op (i.valueOrTop n)) i.state

/-- A refinement is remarked on. -/
def notes (i : Input) : List Note :=
  let remark (branch : String) (lhs rhs : NodeId) : List Note :=
    (comparison? i lhs rhs).toList.map fun (x, c) =>
      ⟨s!"refining on {branch} branch", [("var", x), ("c", inspect c)]⟩
  match i.node.kind with
  | .binary .eq lhs rhs => remark "then" lhs rhs
  | .binary .notEq lhs rhs => remark "else" lhs rhs
  | _ => []

def transfer (c : ConstantChecker) : Transfer Constant (VarStore Constant) where
  initial := c.initial
  visit := visitor.visit
  notes := notes

end ConstantChecker

end Dataflow
