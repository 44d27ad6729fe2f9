import Dataflow.Proofs.BoundNames
import Dataflow.Proofs.DepthFirst
import Dataflow.Proofs.NullSemantics
import Dataflow.Proofs.PostFixpoint

/-!
# The report of null dereferences

Stores describe the memories of executions (`Describes`). A visit leaves a store that describes the
memory after the node (`leaves_visit`), or one for each branch, and the one for the branch that is
taken does (`Leaves.describes_branch`). For this, a variable that a node shows not to have been null
when it was read must not be null by then either (`RefinesSoundly`), since stores keep what has been
found under the name of the variable.
-/

namespace Dataflow

theorem Nullness.eq_nonNull_of_below {u v : Nullness} (h : below u v) (hv : v = .nonNull) :
    u = .nonNull := by
  subst hv
  cases u with
  | nonNull => rfl
  | nullable => cases h

namespace NullnessChecker

/-! ## What stores say of memories -/

section Describes

variable {g : Graph} {store : VarStore Nullness} {env env' : String → Concrete}

/-- Every variable is bound, and one that is bound to be non-null is not null. -/
def Describes (g : Graph) (store : VarStore Nullness) (env : String → Concrete) : Prop :=
  ∀ x ∈ g.variableNames.toList, ∃ v, store.get? x = some v ∧ (v = .nonNull → env x = .object)

theorem Describes.mono (h : Describes g store env) {store' : VarStore Nullness}
    (hbelow : below store store') : Describes g store' env := by
  intro x hx
  obtain ⟨u, hu, hnull⟩ := h x hx
  obtain ⟨v, hv, huv⟩ := VarStore.below_iff_get?.1 hbelow x u hu
  exact ⟨v, hv, fun hv => hnull (Nullness.eq_nonNull_of_below huv hv)⟩

theorem Describes.set (h : Describes g store env) {x : String} {v : Nullness}
    (hx : v = .nonNull → env' x = .object) (hother : ∀ y, y ≠ x → env' y = env y) :
    Describes g (store.set x v) env' := by
  intro y hy
  rw [VarStore.get?_set]
  by_cases hyx : y = x
  · subst hyx
    exact ⟨v, if_pos rfl, hx⟩
  · rw [if_neg hyx, hother y hyx]
    exact h y hy

theorem describes_initial {c : NullnessChecker} (h : ∀ x ∈ c.parameters.toList, env x = .object) :
    Describes g (c.initial g) env := by
  intro x hx
  rw [initial, VarStore.get?_foldl_set_const, VarStore.get?_topFor, if_pos hx]
  by_cases hparameter : x ∈ c.parameters.toList
  · exact ⟨.nonNull, if_pos hparameter, fun _ => h x hparameter⟩
  · exact ⟨.nullable, if_neg hparameter, fun hv => by cases hv⟩

end Describes

/-! ## One node -/

/-- The value offered for an operand does not exclude what the operand has come to. -/
def OfferedSoundly (values : Table Nullness) (m : Memory) (o : NodeId) : Prop :=
  (values.get? o).getD top = .nonNull → m.results o = .object

section Visit

variable (g : Graph)

/-- The operand that a node shows not to be null: what it dereferences, or what it compares with
null if it is a condition. -/
def checked? (n : Node) : Option NodeId :=
  match n.kind with
  | .binary .eq lhs rhs | .binary .notEq lhs rhs =>
    if (g.block? n.block).any (·.kind = .conditional) then g.comparedWithNull? lhs rhs else none
  | kind => dereferenced? kind

/-- If a node shows a variable not to have been null when it was read, it is not null now. -/
def RefinesSoundly (n : Node) (m : Memory) : Prop :=
  ∀ operand ∈ checked? g n, ∀ x, (g.node? operand).bind (·.kind.localName?) = some x →
    m.results operand = .object → m.env x = .object

variable {g} {c : NullnessChecker} {n : Node} {m : Memory} {store : VarStore Nullness}
  {values : Table Nullness} {result : Concrete}

theorem nullTest?_eq (lhs rhs : NodeId) :
    nullTest? ⟨n, g.nodes, store, values⟩ lhs rhs =
      (g.comparedWithNull? lhs rhs).bind fun o => (g.node? o).bind (·.kind.localName?) := by
  have hnull : ∀ o, isNull ⟨n, g.nodes, store, values⟩ o = g.isNullLiteral o := fun _ => rfl
  unfold nullTest? Graph.comparedWithNull?
  rw [hnull, hnull]
  split_ifs <;> rfl

variable (hstore : Describes g store m.env)
  (hassigned : ∀ x o, n.kind = .assignment x o → OfferedSoundly values m o)
  (hderef : ¬DereferencesNull m n) (hyields : c.Yields m n.kind result)

include hstore hassigned hyields in
/-- A node that is found to be non-null does not come to null. -/
theorem value_sound (hn : n ∈ g.nodes)
    (hvalue : (c.visitor.visit ⟨n, g.nodes, store, values⟩).value = .nonNull) :
    result = .object := by
  obtain ⟨id, block, kind⟩ := n
  cases kind with
  | localVariable x =>
    obtain ⟨v, hv, hnull⟩ := hstore x (g.mem_variableNames hn rfl)
    simp only [Visitor.visit, visitor, NodeResult.single, hv] at hvalue
    exact hyields.trans (hnull hvalue)
  | literal value =>
    simp only [Visitor.visit, visitor, NodeResult.single] at hvalue
    simp only [Yields] at hyields
    split at hvalue
    · cases hvalue
    · rw [hyields, if_neg (by assumption)]
  | assignment x o => exact hyields.trans (hassigned x o rfl hvalue)
  | invocation method receiver arguments =>
    simp only [Visitor.visit, visitor, NodeResult.single] at hvalue
    split at hvalue
    · exact hyields (by assumption)
    · cases hvalue
  | binary op lhs rhs => exact hyields
  | unary op operand => exact hyields
  | creation className arguments => exact hyields
  | _ => cases hvalue

include hderef hstore in
theorem describes_dereference (hrefines : RefinesSoundly g n m) {receiver : NodeId}
    (hreceiver : dereferenced? n.kind = some receiver) :
    Describes g (dereference ⟨n, g.nodes, store, values⟩ receiver) m.env := by
  unfold dereference
  rcases hx : NodeInput.localName? ⟨n, g.nodes, store, values⟩ receiver with _ | x
  · exact hstore
  · refine hstore.set (fun _ => hrefines receiver ?_ x hx ?_) fun _ _ => rfl
    · obtain ⟨id, block, kind⟩ := n
      cases kind <;> first | exact hreceiver | cases hreceiver
    · exact Concrete.eq_object_of_ne_null fun hnull => hderef ⟨receiver, hreceiver, hnull⟩

/-- A node that is no test of a variable leaves one store, which describes the memory after it. A
test leaves a store that describes the memory, with its variable refined in one of the branches. -/
inductive Leaves (g : Graph) (store : VarStore Nullness) (n : Node) (env : String → Concrete) :
    Outflow (VarStore Nullness) → Prop
  | single {store' : VarStore Nullness} :
    Describes g store' env → Leaves g store n env (.single store')
  | notEq {lhs rhs operand : NodeId} {x : String} :
    Describes g store env → n.kind = .binary .notEq lhs rhs →
    g.comparedWithNull? lhs rhs = some operand →
    (g.node? operand).bind (·.kind.localName?) = some x →
    Leaves g store n env (.split (store.set x .nonNull) store)
  | eq {lhs rhs operand : NodeId} {x : String} :
    Describes g store env → n.kind = .binary .eq lhs rhs →
    g.comparedWithNull? lhs rhs = some operand →
    (g.node? operand).bind (·.kind.localName?) = some x →
    Leaves g store n env (.split store (store.set x .nonNull))

include hstore hassigned hderef hyields in
theorem leaves_visit (hrefines : RefinesSoundly g n m) :
    Leaves g store n (m.after n result).env
      (c.visitor.visit ⟨n, g.nodes, store, values⟩).outflow := by
  have hsame := fun h => Memory.env_after (n := n) h m result
  obtain ⟨id, block, kind⟩ := n
  cases kind with
  | assignment x o =>
    refine .single (hstore.set (fun hv => ?_) fun y hy => Function.update_of_ne hy _ _)
    exact (Function.update_self _ _ _).trans (hyields.trans (hassigned x o rfl hv))
  | binary op lhs rhs =>
    have htest : nullTest? ⟨⟨id, block, .binary op lhs rhs⟩, g.nodes, store, values⟩ lhs rhs = _ :=
      nullTest?_eq lhs rhs
    have hstore' := hsame (by simp) ▸ hstore
    simp only [Visitor.visit, visitor, binary]
    split
    · rename_i x hx
      obtain ⟨operand, hoperand, hname⟩ := Option.bind_eq_some_iff.1 (htest.symm.trans hx)
      exact .notEq hstore' rfl hoperand hname
    · rename_i x hx
      obtain ⟨operand, hoperand, hname⟩ := Option.bind_eq_some_iff.1 (htest.symm.trans hx)
      exact .eq hstore' rfl hoperand hname
    · exact .single hstore'
  | invocation method receiver arguments =>
    refine .single ?_
    rw [hsame (by simp)]
    cases receiver with
    | none => exact hstore
    | some receiver => exact describes_dereference hstore hderef hrefines rfl
  | fieldAccess receiver field =>
    refine .single ?_
    rw [hsame (by simp)]
    exact describes_dereference hstore hderef hrefines rfl
  | _ => exact .single (hsame (by simp) ▸ hstore)

theorem Leaves.describes_joined {env : String → Concrete} {o : Outflow (VarStore Nullness)}
    (h : Leaves g store n env o) : Describes g o.joined env := by
  have hS := VarStore.lawful Nullness.lawful
  cases h with
  | single h => exact h
  | notEq h => exact h.mono (hS.below_join_right _ _)
  | eq h => exact h.mono (hS.below_join_left _ _)

/-- A condition that finds what it tests not to be null refines soundly. -/
theorem RefinesSoundly.env_eq_object (h : RefinesSoundly g n m) (hg : g.WellFormed)
    (hn : g.node? n.id = some n) (hconditional : (g.block? n.block).any (·.kind = .conditional))
    {op : BinaryOp} (hop : op = .eq ∨ op = .notEq) {lhs rhs operand : NodeId} {x : String}
    (hkind : n.kind = .binary op lhs rhs) (hoperand : g.comparedWithNull? lhs rhs = some operand)
    (hname : (g.node? operand).bind (·.kind.localName?) = some x)
    (hobject : (m.after n result).results operand ≠ .null) :
    (m.after n result).env x = .object := by
  have hchecked : checked? g n = some operand := by
    rcases hop with rfl | rfl <;> simp only [checked?, hkind, if_pos hconditional] <;>
      exact hoperand
  have hmem : operand ∈ n.kind.operands := hkind ▸ g.mem_operands_of_comparedWithNull? hoperand
  have hresult : (m.after n result).results operand = m.results operand :=
    Function.update_of_ne (Nat.ne_of_lt (hg.operand_lt hn operand hmem)) _ _
  rw [Memory.env_after (by simp [hkind])]
  exact h operand hchecked x hname (Concrete.eq_object_of_ne_null (hresult ▸ hobject))

/-- The store for the branch that a condition takes describes the memory after it. -/
theorem Leaves.describes_branch (hg : g.WellFormed) (hn : g.node? n.id = some n)
    (hconditional : (g.block? n.block).any (·.kind = .conditional))
    (hrefines : RefinesSoundly g n m) {o : Outflow (VarStore Nullness)}
    (h : Leaves g store n (m.after n result).env o) {branch : Branch}
    (htakes : Takes g (m.after n result) branch n.kind) {state : VarStore Nullness}
    (hselect : FlowRule.eachToEach.select branch o.thenState o.elseState = some state) :
    Describes g state (m.after n result).env := by
  cases h with
  | single h => cases branch <;> cases hselect <;> exact h
  | notEq h hkind hoperand hname =>
    rw [hkind] at htakes
    have hiff := htakes _ hoperand
    cases branch with
    | thenBranch =>
      cases hselect
      have henv := hrefines.env_eq_object hg hn hconditional (.inr rfl) hkind hoperand hname
        fun hnull => by cases hiff.1 hnull
      exact h.set (fun _ => henv) fun _ _ => rfl
    | elseBranch =>
      cases hselect
      exact h
  | eq h hkind hoperand hname =>
    rw [hkind] at htakes
    have hiff := htakes _ hoperand
    cases branch with
    | thenBranch =>
      cases hselect
      exact h
    | elseBranch =>
      cases hselect
      have henv := hrefines.env_eq_object hg hn hconditional (.inl rfl) hkind hoperand hname
        fun hnull => by cases hiff.1 hnull
      exact h.set (fun _ => henv) fun _ _ => rfl

end Visit

/-! ## One block -/

section Block

variable {c : NullnessChecker} {g : Graph}

/-- A pass describes an evaluation of the same nodes, if it is offered what describes the operands
from before. -/
theorem pass_sound : ∀ {ns : List Node} {values : Table Nullness} {store : VarStore Nullness}
    {m m' : Memory}, (∀ n ∈ ns, n ∈ g.nodes) → (ns.map Node.id).Nodup →
      (∀ pre n post, ns = pre ++ n :: post → ∀ x o, n.kind = .assignment x o →
        o ∈ pre.map Node.id ∨ OfferedSoundly values m o) →
      Describes g store m.env → c.Evaluates (RefinesSoundly g) ns m m' →
      Describes g (Pass.finalState store (c.transfer.pass g.nodes values store ns)) m'.env ∧
        ∀ w ∈ c.transfer.pass g.nodes values store ns, w.result.value = .nonNull →
          m'.results w.node.id = .object
  | [], _, _, _, _, _, _, _, hstore, heval => by
    cases heval
    exact ⟨hstore, by simp⟩
  | n :: rest, values, store, m, m', hns, hnodup, hoperands, hstore, heval => by
    obtain ⟨hn, hrest⟩ := List.forall_mem_cons.1 hns
    obtain ⟨hfresh, hnodup'⟩ := List.nodup_cons.1 hnodup
    cases heval with
    | @cons _ _ _ _ result hrefines hderef hyields heval =>
      have hassigned : ∀ x o, n.kind = .assignment x o → OfferedSoundly values m o :=
        fun x o hkind => by simpa using hoperands [] n rest rfl x o hkind
      have hvalue := value_sound hstore hassigned hyields hn
      have hjoined := (leaves_visit hstore hassigned hderef hyields
        hrefines).describes_joined
      have hself : (m.after n result).results n.id = result := Function.update_self _ _ _
      have hoperands' : ∀ pre k post, rest = pre ++ k :: post → ∀ x o, k.kind = .assignment x o →
          o ∈ pre.map Node.id ∨ OfferedSoundly
            (values.insert n.id (c.transfer.visitNode g.nodes values store n).result.value)
            (m.after n result) o := by
        intro pre k post heq x o hkind
        by_cases hon : o = n.id
        · refine .inr fun hv => ?_
          subst hon
          rw [Table.get?_insert_self] at hv
          exact hself.trans (hvalue hv)
        · refine (hoperands (n :: pre) k post (by rw [heq, List.cons_append]) x o hkind).imp
            (fun hmem => by simpa [hon] using hmem) fun hoffered hv => ?_
          rw [Table.get?_insert_ne _ _ hon] at hv
          exact (Function.update_of_ne hon _ _).trans (hoffered hv)
      obtain ⟨hfinal, hresults⟩ := pass_sound hrest hnodup' hoperands' hjoined heval
      rw [pass_cons, Pass.finalState_cons]
      refine ⟨hfinal, List.forall_mem_cons.2 ⟨fun hv => ?_, hresults⟩⟩
      rw [node_visitNode, heval.results_eq hfresh, hself]
      exact hvalue hv

end Block

end NullnessChecker

end Dataflow
