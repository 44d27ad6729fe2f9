import Dataflow.Proofs.ConstantRising
import Dataflow.Proofs.ExactFolding
import Mathlib.Logic.Function.Basic

/-!
# What constants say of data

A program works on 64-bit integers, truth values among them, and on data of other kinds (`Datum`),
which are never equal to an integer. A constant describes data, and a store describes an
environment. Whatever a node may come to, its visit says so: `ConstantChecker.describes_visit`.
Where a test refines a variable by a constant, the branch for equality is taken only if the variable
is this constant, provided that it has not been assigned since it was read.
-/

namespace Dataflow

inductive Datum (α : Type)
  | integer (n : Int64)
  | other (value : α)
  deriving DecidableEq

variable {α : Type}

/-! ## Evaluation -/

namespace Datum

def ofBool (b : Bool) : Datum α :=
  integer (if b then 1 else 0)

/-- Whether a comparison of two data may have this outcome. Nothing is said of two data neither of
which is an integer. -/
def MayEqual : Datum α → Datum α → Bool → Prop
  | integer a, integer b, equal => equal = decide (a = b)
  | other _, other _, _ => True
  | _, _, equal => equal = false

/-- Whether a condition with this result may take the branch. -/
def Takes : Datum α → Branch → Prop
  | integer n, .thenBranch => n ≠ 0
  | integer n, .elseBranch => n = 0
  | other _, _ => True

theorem takes_ofBool_iff (b : Bool) (branch : Branch) :
    (ofBool b : Datum α).Takes branch ↔ b = (branch = .thenBranch) := by
  cases b <;> cases branch <;> simp [ofBool, Takes]

theorem MayEqual.symm {x y : Datum α} {equal : Bool} (h : x.MayEqual y equal) :
    y.MayEqual x equal := by
  cases x <;> cases y <;> simp_all [MayEqual, eq_comm]

/-- Only an integer is equal to an integer. -/
theorem MayEqual.eq_integer {x : Datum α} {n : Int64} (h : x.MayEqual (integer n) true) :
    x = integer n := by
  cases x with
  | integer a => exact congrArg integer (of_decide_eq_true (Eq.symm h))
  | other value => cases h

end Datum

/-- Whether an operator may come to this result. A 64-bit number that the operator comes to is the
result; where there is none, anything may be. -/
def BinaryOp.Yields : BinaryOp → Datum α → Datum α → Datum α → Prop
  | eq, x, y, result => ∃ equal, x.MayEqual y equal ∧ result = .ofBool equal
  | notEq, x, y, result => ∃ equal, x.MayEqual y equal ∧ result = .ofBool !equal
  | op, .integer a, .integer b, result =>
    ∀ n : Int64, op.exact? a.toInt b.toInt = some n.toInt → result = .integer n
  | _, _, _, _ => True

def UnaryOp.Yields (op : UnaryOp) : Datum α → Datum α → Prop
  | .integer a, result => ∀ n : Int64, op.exact a.toInt = n.toInt → result = .integer n
  | .other _, _ => True

namespace NodeKind

variable (env : String → Datum α) (operand : NodeId → Datum α)

/-- Whether a node may come to this result. -/
def Yields : NodeKind → Datum α → Prop
  | localVariable x, result => result = env x
  | literal (.int n), result => result = .integer n
  | literal (.bool b), result => result = .ofBool b
  | literal _, result => ∃ value, result = .other value
  | assignment _ o, result => result = operand o
  | binary op lhs rhs, result => op.Yields (operand lhs) (operand rhs) result
  | unary op o, result => op.Yields (operand o) result
  | invocation .., _ | fieldAccess .., _ | creation .., _ | returns _, _ | throws _, _
  | marker _, _ => True

/-- The environment after a node with this result. -/
def envAfter (kind : NodeKind) (result : Datum α) : String → Datum α :=
  match kind with
  | assignment x _ => Function.update env x result
  | _ => env

end NodeKind

theorem BinaryOp.Yields.eq_integer {op : BinaryOp} {a b n : Int64} {result : Datum α}
    (h : op.Yields (.integer a) (.integer b) result)
    (hn : op.exact? a.toInt b.toInt = some n.toInt) : result = .integer n := by
  rw [← Folding.evaluate?_eq_some_iff] at hn
  cases op with
  | eq | notEq =>
    obtain ⟨equal, hequal, rfl⟩ := h
    cases hequal
    cases hn
    simp [Datum.ofBool, Folding.ofBool]
  | _ => exact h n ((Folding.evaluate?_eq_some_iff _).1 hn)

/-- A test takes its branch for equality only if its operands may be equal. -/
theorem BinaryOp.Yields.mayEqual {op : BinaryOp} {x y result : Datum α} (h : op.Yields x y result)
    (htakes : op = .eq ∧ result.Takes .thenBranch ∨ op = .notEq ∧ result.Takes .elseBranch) :
    x.MayEqual y true := by
  rcases htakes with ⟨rfl, htakes⟩ | ⟨rfl, htakes⟩ <;> obtain ⟨equal, hequal, rfl⟩ := h
  · obtain rfl : equal = true := by simpa using (Datum.takes_ofBool_iff _ _).1 htakes
    exact hequal
  · obtain rfl : equal = true := by simpa using (Datum.takes_ofBool_iff _ _).1 htakes
    exact hequal

/-! ## Description -/

namespace Flat

def Describes : Constant → Datum α → Prop
  | bottom, _ => False
  | exact n, x => x = .integer n
  | top, _ => True

variable {u v : Constant} {x y result : Datum α}

theorem Describes.meet (hu : u.Describes x) (hv : v.Describes x) : (u.meet v).Describes x := by
  cases u <;> cases v <;> simp_all [Flat.meet, Describes]

theorem Describes.binary {op : BinaryOp} (hu : u.Describes x) (hv : v.Describes y)
    (h : op.Yields x y result) : (Folding.binary op u v).Describes result := by
  cases u with
  | bottom => exact hu.elim
  | top => cases v with
    | bottom => exact hv.elim
    | _ => trivial
  | exact a => cases v with
    | bottom => exact hv.elim
    | top => trivial
    | exact b =>
      subst hu hv
      rcases hn : Folding.binary op (.exact a) (.exact b) with _ | n | _
      · exact Folding.binary_exact_ne_bottom op a b hn
      · exact h.eq_integer ((Folding.binary_exact_iff op).1 hn)
      · trivial

theorem Describes.unary {op : UnaryOp} (hu : u.Describes x) (h : op.Yields x result) :
    (Folding.unary op u).Describes result := by
  cases u with
  | bottom => exact hu.elim
  | top => cases op <;> trivial
  | exact a =>
    subst hu
    rcases hn : Folding.unary op (.exact a) with _ | n | _
    · exact Folding.unary_exact_ne_bottom op a hn
    · exact h n ((Folding.unary_exact_iff op).1 hn)
    · trivial

end Flat

namespace ConstantChecker

/-- What the store says of a bound variable is so. -/
def Holds (s : VarStore Constant) (env : String → Datum α) : Prop :=
  ∀ x v, s.get? x = some v → v.Describes (env x)

/-- What the result of a visit says of the result of the node and of the environment after it. -/
structure Covers (r : Result) (result : Datum α) (env : String → Datum α) : Prop where
  value : r.value.Describes result
  joined : Holds r.outflow.joined env
  thenState : result.Takes .thenBranch → Holds r.outflow.thenState env
  elseState : result.Takes .elseBranch → Holds r.outflow.elseState env

variable {i : Input} {s : VarStore Constant} {env : String → Datum α}

theorem Holds.describes_getD (h : Holds s env) (x : String) :
    ((s.get? x).getD .top).Describes (env x) := by
  rcases hx : s.get? x with _ | v
  · trivial
  · exact h x v hx

theorem Holds.set (h : Holds s env) {x : String} {v : Constant} {result : Datum α}
    (hv : v.Describes result) : Holds (s.set x v) (Function.update env x result) := by
  intro y u hu
  rw [VarStore.get?_set] at hu
  split_ifs at hu with hy
  · subst hy
    cases hu
    rwa [Function.update_self]
  · rw [Function.update_of_ne hy]
    exact h y u hu

theorem holds_refine (h : Holds s env) {x : String} {k : Int64} (hx : env x = .integer k) :
    Holds (refine s x k) env := by
  have hmeet : (((s.get? x).getD .top).meet (.exact k)).Describes (env x) :=
    (h.describes_getD x).meet hx
  have hset := h.set (x := x) hmeet
  rwa [Function.update_eq_self] at hset

theorem Covers.single {v : Constant} {result : Datum α} (hv : v.Describes result)
    (hs : Holds s env) : Covers (.single v s) result env :=
  ⟨hv, hs, fun _ => hs, fun _ => hs⟩

/-- A comparison is that of a variable with a constant. -/
theorem comparison?_eq_some {lhs rhs : NodeId} {x : String} {k : Int64}
    (h : comparison? i lhs rhs = some (x, k)) :
    i.localName? lhs = some x ∧ i.valueOrTop rhs = .exact k ∨
      i.localName? rhs = some x ∧ i.valueOrTop lhs = .exact k := by
  have hvalue : ∀ {o k}, constant? i o = some k → i.valueOrTop o = .exact k := by
    intro o k ho
    obtain ⟨v, hv, hk⟩ := Option.bind_eq_some_iff.1 ho
    cases v <;> cases hk
    rw [NodeInput.valueOrTop, hv, Option.getD_some]
  unfold comparison? at h
  split at h
  · rename_i hx hk
    cases h
    exact .inl ⟨hx, hvalue hk⟩
  · split at h
    · rename_i hx hk
      cases h
      exact .inr ⟨hx, hvalue hk⟩
    · cases h

/-- What a test refines, if it refines anything. -/
theorem outflow_binary_cases (op : BinaryOp) (lhs rhs : NodeId) (i : Input) :
    (binary op lhs rhs i).outflow = .single i.state ∨
      ∃ x k, comparison? i lhs rhs = some (x, k) ∧
        (op = .eq ∧ (binary op lhs rhs i).outflow = .split (refine i.state x k) i.state ∨
          op = .notEq ∧ (binary op lhs rhs i).outflow = .split i.state (refine i.state x k)) := by
  unfold binary
  split
  · rename_i x k hx
    exact .inr ⟨x, k, hx, .inl ⟨rfl, rfl⟩⟩
  · rename_i x k hx
    exact .inr ⟨x, k, hx, .inr ⟨rfl, rfl⟩⟩
  · exact .inl rfl

section Binary

variable {operand : NodeId → Datum α} {op : BinaryOp} {lhs rhs : NodeId} {result : Datum α}
  (hbound : ∀ o ∈ [lhs, rhs], ∀ x, i.localName? o = some x → (i.state.get? x).isSome)
  (hstate : Holds i.state env)
  (hoperands : ∀ o ∈ [lhs, rhs], (i.valueOrTop o).Describes (operand o))
  (hcurrent : op = .eq ∨ op = .notEq →
    ∀ o ∈ [lhs, rhs], ∀ x, i.localName? o = some x → operand o = env x)

include hstate hoperands in
/-- Where a variable is found equal to a constant, it is this constant. -/
theorem holds_refine_of_equal {x : String} {k : Int64}
    (hcurrent : ∀ o ∈ [lhs, rhs], ∀ x, i.localName? o = some x → operand o = env x)
    (hx : comparison? i lhs rhs = some (x, k))
    (hequal : (operand lhs).MayEqual (operand rhs) true) : Holds (refine i.state x k) env := by
  refine holds_refine hstate ?_
  rcases comparison?_eq_some hx with ⟨hname, hk⟩ | ⟨hname, hk⟩
  · have hrhs : operand rhs = .integer k := by
      have := hoperands rhs (by simp)
      rwa [hk] at this
    rw [hrhs] at hequal
    rw [← hcurrent lhs (by simp) x hname, hequal.eq_integer]
  · have hlhs : operand lhs = .integer k := by
      have := hoperands lhs (by simp)
      rwa [hk] at this
    rw [hlhs] at hequal
    rw [← hcurrent rhs (by simp) x hname, hequal.symm.eq_integer]

include hbound in
theorem joined_binary_of_operands : (binary op lhs rhs i).outflow.joined = i.state := by
  refine joined_binary_of_bound fun x k hx => ?_
  rcases comparison?_eq_some hx with ⟨hname, -⟩ | ⟨hname, -⟩
  · exact hbound lhs (by simp) x hname
  · exact hbound rhs (by simp) x hname

include hbound hstate hoperands hcurrent in
theorem covers_binary (h : op.Yields (operand lhs) (operand rhs) result) :
    Covers (binary op lhs rhs i) result env where
  value := by
    rw [value_binary]
    exact (hoperands lhs (by simp)).binary (hoperands rhs (by simp)) h
  joined := by
    -- The join of both outcomes undoes the refinement.
    rw [joined_binary_of_operands hbound]
    exact hstate
  thenState htakes := by
    rcases outflow_binary_cases op lhs rhs i with hout | ⟨x, k, hx, ⟨rfl, hout⟩ | ⟨rfl, hout⟩⟩ <;>
      rw [hout]
    · exact hstate
    · have hequal := h.mayEqual (.inl ⟨rfl, htakes⟩)
      exact holds_refine_of_equal hstate hoperands (hcurrent (.inl rfl)) hx hequal
    · exact hstate
  elseState htakes := by
    rcases outflow_binary_cases op lhs rhs i with hout | ⟨x, k, hx, ⟨rfl, hout⟩ | ⟨rfl, hout⟩⟩ <;>
      rw [hout]
    · exact hstate
    · exact hstate
    · have hequal := h.mayEqual (.inr ⟨rfl, htakes⟩)
      exact holds_refine_of_equal hstate hoperands (hcurrent (.inr rfl)) hx hequal

end Binary

/-- Constant propagation is right about every node: if the store describes the environment and the
values describe what the operands have come to, then the value describes what the node comes to, and
each state after it describes the environment after it, if it is one for the branch that is taken.
Of a test for equality this holds if the variables that it reads have not been assigned since. -/
theorem describes_visit (c : ConstantChecker) (i : Input) (env : String → Datum α)
    (operand : NodeId → Datum α) (result : Datum α)
    (hbound : ∀ o ∈ i.node.kind.operands, ∀ x, i.localName? o = some x → (i.state.get? x).isSome)
    (hstate : Holds i.state env)
    (hoperands : ∀ o ∈ i.node.kind.operands, (i.valueOrTop o).Describes (operand o))
    (hcurrent : i.node.kind.equated?.isSome →
      ∀ o ∈ i.node.kind.operands, ∀ x, i.localName? o = some x → operand o = env x)
    (hyields : i.node.kind.Yields env operand result) :
    Covers (c.transfer.visit i) result (i.node.kind.envAfter env result) := by
  obtain ⟨⟨id, block, kind⟩, nodes, s, values⟩ := i
  cases kind with
  | localVariable x =>
    obtain rfl := hyields
    exact .single (hstate.describes_getD x) hstate
  | literal value =>
    refine .single ?_ hstate
    cases value with
    | int n => exact hyields
    | bool b => exact hyields
    | _ => trivial
  | assignment x o =>
    obtain rfl := hyields
    have ho := hoperands o (List.mem_singleton_self o)
    exact .single ho (hstate.set ho)
  | binary op lhs rhs =>
    refine covers_binary hbound hstate hoperands (fun hop => hcurrent ?_) hyields
    rcases hop with rfl | rfl <;> rfl
  | unary op o => exact .single ((hoperands o (List.mem_singleton_self o)).unary hyields) hstate
  | _ => exact .single trivial hstate

/-- A test whether an unknown variable is three. -/
def testOfThree : Input where
  node := ⟨2, 1, .binary .eq 0 1⟩
  nodes := #[⟨0, 0, .localVariable "x"⟩, ⟨1, 0, .literal (.int 3)⟩, ⟨2, 1, .binary .eq 0 1⟩]
  state := .topFor ["x"]
  values := (Table.empty.insert 0 .top).insert 1 (.exact 3)

/-- Where an unknown variable is three, the test takes the branch with a state that says so. -/
theorem describes_visit_testOfThree :
    let env : String → Datum Unit := fun _ => .integer 3
    let operand : NodeId → Datum Unit := fun _ => .integer 3
    let r := ({} : ConstantChecker).transfer.visit testOfThree
    testOfThree.node.kind.Yields env operand (.ofBool true) ∧
      (Datum.ofBool true : Datum Unit).Takes .thenBranch ∧
      r.outflow.thenState.get? "x" = some (.exact 3) ∧ Covers r (.ofBool true) env := by
  intro env operand r
  have hstate : Holds testOfThree.state env := by
    intro x v hv
    rw [testOfThree, VarStore.get?_topFor] at hv
    split_ifs at hv
    cases hv
    trivial
  have hyields : testOfThree.node.kind.Yields env operand (.ofBool true) :=
    ⟨true, rfl, rfl⟩
  have hcovers := describes_visit {} testOfThree env operand (.ofBool true)
    (by
      rintro o ho x hx
      obtain rfl | rfl : o = 0 ∨ o = 1 := by simpa [testOfThree, NodeKind.operands] using ho
      · cases hx
        decide
      · cases hx)
    hstate
    (by
      rintro o ho
      obtain rfl | rfl : o = 0 ∨ o = 1 := by simpa [testOfThree, NodeKind.operands] using ho
      · trivial
      · rfl)
    (fun _ _ _ _ _ => rfl) hyields
  have htakes : (Datum.ofBool true : Datum Unit).Takes .thenBranch :=
    (Datum.takes_ofBool_iff _ _).2 (by simp)
  exact ⟨hyields, htakes, by decide, hcovers⟩

end ConstantChecker

end Dataflow
