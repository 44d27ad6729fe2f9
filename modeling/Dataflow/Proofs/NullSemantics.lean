import Dataflow.Checker.Nullness
import Dataflow.Proofs.Edge
import Dataflow.Proofs.Paths
import Mathlib.Logic.Function.Basic

/-!
# Executions and null dereferences

What the programs do whose nullness is analysed, as far as null is concerned. A node keeps its
result until it is evaluated again, and a dereference of null ends the execution. `permits` says in
which memories a node may be evaluated; with `fun _ _ => True` it rules nothing out.
-/

namespace Dataflow

inductive Concrete
  | null
  | object
  deriving DecidableEq

theorem Concrete.eq_object_of_ne_null {v : Concrete} (h : v ≠ .null) : v = .object := by
  cases v with
  | null => exact absurd rfl h
  | object => rfl

structure Memory where
  env : String → Concrete
  results : NodeId → Concrete

def Memory.after (m : Memory) (n : Node) (result : Concrete) : Memory where
  env := match n.kind with
    | .assignment x _ => Function.update m.env x result
    | _ => m.env
  results := Function.update m.results n.id result

theorem Memory.env_after {n : Node} (h : ∀ x o, n.kind ≠ .assignment x o) (m : Memory)
    (result : Concrete) : (m.after n result).env = m.env := by
  unfold Memory.after
  split
  · exact absurd (by assumption) (h _ _)
  · rfl

def Graph.isNullLiteral (g : Graph) (n : NodeId) : Bool :=
  (g.node? n).any fun node => node.kind = .literal .null

/-- The operand that an operator compares with a null literal. -/
def Graph.comparedWithNull? (g : Graph) (lhs rhs : NodeId) : Option NodeId :=
  if g.isNullLiteral rhs then some lhs
  else if g.isNullLiteral lhs then some rhs
  else none

theorem Graph.mem_operands_of_comparedWithNull? {g : Graph} {op : BinaryOp} {lhs rhs o : NodeId}
    (h : g.comparedWithNull? lhs rhs = some o) : o ∈ (NodeKind.binary op lhs rhs).operands := by
  unfold comparedWithNull? at h
  split_ifs at h <;> cases h <;> simp [NodeKind.operands]

/-- No exceptions, branches with states of their own, and operands at hand: in the same block for a
regular block, and on every path for a condition. -/
structure Graph.Structured (g : Graph) : Prop where
  not_exceptional : ∀ {b block}, g.block? b = some block → block.kind ≠ .exceptional
  rules : ∀ {b block condition thenEdge elseEdge}, g.block? b = some block →
    block.shape = .conditional condition thenEdge elseEdge →
      thenEdge.rule = .eachToEach ∧ elseEdge.rule = .eachToEach
  regular_operands : ∀ {n node block}, g.node? n = some node → g.block? node.block = some block →
    block.kind = .regular → ∀ o ∈ node.kind.operands,
      ∃ operand, g.node? o = some operand ∧ operand.block = node.block
  condition_operands : ∀ {n node block}, g.node? n = some node →
    g.block? node.block = some block → block.kind = .conditional → ∀ o ∈ node.kind.operands,
      ∃ operand, g.node? o = some operand ∧ g.OnEveryPath operand.block node.block

namespace NullnessChecker

section Semantics

variable (c : NullnessChecker) (g : Graph)

/-- Whether a node may come to this result. -/
def Yields (m : Memory) : NodeKind → Concrete → Prop
  | .localVariable x, result => result = m.env x
  | .literal value, result => result = if value = .null then .null else .object
  | .assignment _ operand, result => result = m.results operand
  | .binary .., result | .unary .., result | .creation .., result => result = .object
  | .invocation method _ _, result => c.methods.contains method → result = .object
  | .fieldAccess .., _ | .returns _, _ | .throws _, _ | .marker _, _ => True

def DereferencesNull (m : Memory) (n : Node) : Prop :=
  ∃ receiver, dereferenced? n.kind = some receiver ∧ m.results receiver = .null

/-- Nodes are evaluated in order, none of them with a null dereference. -/
inductive Evaluates (permits : Node → Memory → Prop) : List Node → Memory → Memory → Prop
  | nil {m : Memory} : Evaluates permits [] m m
  | cons {n : Node} {rest : List Node} {m m' : Memory} (result : Concrete) :
    permits n m → ¬DereferencesNull m n → c.Yields m n.kind result →
    Evaluates permits rest (m.after n result) m' → Evaluates permits (n :: rest) m m'

/-- Whether a condition that has been evaluated may take this branch. A comparison with null takes
the one that matches what is compared. -/
def Takes (m : Memory) (branch : Branch) : NodeKind → Prop
  | .binary .eq lhs rhs => ∀ operand ∈ g.comparedWithNull? lhs rhs,
    (m.results operand = .null ↔ branch = .thenBranch)
  | .binary .notEq lhs rhs => ∀ operand ∈ g.comparedWithNull? lhs rhs,
    (m.results operand = .null ↔ branch = .elseBranch)
  | _ => True

/-- Whether control may leave a block through this edge. -/
def Follows (m : Memory) (b : Block) : Edge → Prop
  | .branch branch => ∀ n ∈ g.nodesOf b, Takes g m branch n.kind
  | _ => True

/-- An execution has come to a block, the first one of these, by way of the others. -/
inductive Execution (permits : Node → Memory → Prop) : List BlockId → Memory → Prop
  | entry {m : Memory} : (∀ x ∈ c.parameters.toList, m.env x = .object) →
    Execution permits [entryBlock] m
  | step {b : BlockId} {path : List BlockId} {m m' : Memory} {block : Block} (e : Edge)
      (target : BlockId) :
    Execution permits (b :: path) m → g.block? b = some block →
    c.Evaluates permits (g.nodesOf block) m m' → (e, target) ∈ block.shape.edges →
    Follows g m' block e → Execution permits (target :: b :: path) m'

def MayFail (permits : Node → Memory → Prop) (n : Node) : Prop :=
  ∃ b path m block pre post m', c.Execution g permits (b :: path) m ∧ g.block? b = some block ∧
    g.nodesOf block = pre ++ n :: post ∧ c.Evaluates permits pre m m' ∧ DereferencesNull m' n

end Semantics

variable {c : NullnessChecker} {g : Graph} {permits : Node → Memory → Prop}

theorem Execution.path {path : List BlockId} {m : Memory} (h : c.Execution g permits path m) :
    g.Path path := by
  induction h with
  | entry _ => exact .entry
  | step _ _ _ hb _ he _ ih =>
    exact ih.step ((Graph.mem_successors_iff hb).2 (BlockShape.target_mem_targets he))

theorem Evaluates.results_eq {ns : List Node} {m m' : Memory} (h : c.Evaluates permits ns m m')
    {o : NodeId} (ho : o ∉ ns.map Node.id) : m'.results o = m.results o := by
  induction h with
  | nil => rfl
  | cons _ _ _ _ _ ih =>
    rw [List.map_cons, List.mem_cons, not_or] at ho
    rw [ih ho.2]
    exact Function.update_of_ne ho.1 _ _

end NullnessChecker

end Dataflow
