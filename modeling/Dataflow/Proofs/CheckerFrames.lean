import Dataflow.Checker.Constant
import Dataflow.Proofs.Correspondence
import Dataflow.Proofs.NullSoundness
import Dataflow.Proofs.Pointwise

/-!
# What the checkers do to stores

Every store that a checker leaves is over the frame of its initial store: a visit sets a variable of
the graph or nothing. The nullness checker besides keeps every relation between values that contains
the constant ones and is closed under joins, if the values that are assigned are in the relation
(`NullnessChecker.respects`): its tests and dereferences do not depend on any state or value. Tests
of the constant checker do, and keep such a relation where all of them compare the same
(`ConstantChecker.results_binary`).
-/

namespace Dataflow

open VarStore

/-- A store over the frame, as a relation of one store. -/
def VarStore.overFrame {U V : Type} (vars : List String) (base : VarStore V) :
    Correspondence Unit U (VarStore V) where
  state := Pointwise vars base fun _ => True
  value _ _ := True

theorem VarStore.offered_overFrame {U V : Type} (vars : List String) (base : VarStore V) (g : Graph)
    (reads : Node → NodeId → Prop) (block : Block) (values : Table U) :
    (overFrame vars base).Offered g reads block fun _ => values :=
  fun _ _ _ _ => .inr trivial

theorem VarStore.Frames.state_overFrame {U V : Type} {vars : List String} {base s : VarStore V}
    (h : s.Frames vars base) : (overFrame (U := U) vars base).state fun _ => s :=
  ⟨fun _ => h, fun _ _ _ _ => trivial⟩

variable {ι : Type} {g : Graph}

/-- Where a relation keeps the order of stores, a block sends more from more. -/
theorem Transfer.Respects.sent_below {U V : Type} [DecidableEq V] [ValueDomain V]
    {t : Transfer U (VarStore V)} {reads : Node → NodeId → Prop} {vars : List String}
    {base : VarStore V} {value : NodeId → (Bool → Option U) → Prop}
    (h : t.Respects g reads ⟨Pointwise vars base Rising, value⟩) (hrefl : ∀ v : V, below v v)
    (hg : g.WellFormed) {b : BlockId} {block : Block} (hb : g.block? b = some block)
    {entry entry' : VarStore V} (hentry : entry.Frames vars base)
    (hentry' : entry'.Frames vars base) (hbelow : below entry entry') {values values' : Table U}
    (hoffered : Correspondence.Offered ⟨Pointwise vars base Rising, value⟩ g reads block
      fun i => bif i then values' else values)
    {e : Edge} {target : BlockId} (he : (e, target) ∈ block.shape.edges) {state state' : VarStore V}
    (hsent : Pass.sent block.shape entry (t.pass g.nodes values entry (g.nodesOf block)) e =
      some state)
    (hsent' : Pass.sent block.shape entry' (t.pass g.nodes values' entry' (g.nodesOf block)) e =
      some state') : below state state' := by
  have hout : Pointwise vars base Rising fun i => bif i then state' else state :=
    h.sent hg hb (pointwise_rising_of_below hentry hentry' hbelow) hoffered he
      (by rintro (_ | _) <;> assumption)
  exact hout.below_of_rising hrefl

namespace NullnessChecker

theorem dereference_eq (i : Input) (receiver : NodeId) :
    dereference i receiver =
      (i.localName? receiver).elim i.state fun x => i.state.set x .nonNull := by
  unfold dereference
  cases i.localName? receiver <;> rfl

theorem mem_names_initial (c : NullnessChecker) (g : Graph) (x : String) :
    x ∈ (c.initial g).names ↔ x ∈ g.variableNames.toList ∨ x ∈ c.parameters.toList := by
  rw [mem_names_iff, or_comm, initial]
  refine (isSome_get?_foldl_set id (fun _ => Nullness.nonNull) x _ _).trans
    (or_congr (by simp) ?_)
  rw [get?_topFor]
  split <;> simp_all

theorem frames_initial (c : NullnessChecker) (g : Graph) :
    (c.initial g).Frames g.variableNames.toList (c.initial g) where
  bound := fun x hx => mem_names_iff.1 ((c.mem_names_initial g x).2 (.inl hx))
  other := fun _ _ => rfl

/-- What an assignment reads. -/
def ReadsAssigned (n : Node) (o : NodeId) : Prop :=
  ∃ x, n.kind = .assignment x o

section Respects

variable {Q : (ι → Nullness) → Prop} (hconst : ∀ v, Q fun _ => v)
  (hjoin : ∀ {u v : ι → Nullness}, Q u → Q v → Q fun i => join (u i) (v i))

include hconst

theorem pointwise_dereference {base : VarStore Nullness} {n : Node} {stores : ι → VarStore Nullness}
    {values : ι → Table Nullness} (h : Pointwise g.variableNames.toList base Q stores)
    (receiver : NodeId) :
    Pointwise g.variableNames.toList base Q fun i =>
      dereference ⟨n, g.nodes, stores i, values i⟩ receiver := by
  have hname : ∀ i, NodeInput.localName? ⟨n, g.nodes, stores i, values i⟩ receiver =
      (g.node? receiver).bind (·.kind.localName?) := fun _ => rfl
  simp only [dereference_eq, hname]
  rcases hx : (g.node? receiver).bind (·.kind.localName?) with _ | x
  · exact h
  · exact h.set (Graph.mem_variableNames_of_localName? hx) (hconst _)

include hjoin in
theorem respects (c : NullnessChecker) (g : Graph) (base : VarStore Nullness) :
    c.transfer.Respects g ReadsAssigned
      ⟨Pointwise g.variableNames.toList base Q, fun _ u => Q fun i => (u i).getD top⟩ where
  join := fun h h' => h.combine h' Nullness.ranking.join_self hjoin
  visit := by
    intro n hn stores values hstores hvalues
    obtain ⟨id, block, kind⟩ := n
    cases kind with
    | localVariable x =>
      exact .of_single hstores (hstores.getD (Graph.mem_variableNames hn rfl) _) hstores
    | literal value => exact .of_single hstores (hconst _) hstores
    | assignment x o =>
      have ho := hvalues o ⟨x, rfl⟩
      exact .of_single hstores ho (hstores.set (Graph.mem_variableNames hn rfl) ho)
    | binary op lhs rhs =>
      simp only [transfer, Visitor.visit, visitor, binary, nullTest?_eq]
      rcases hx : (g.comparedWithNull? lhs rhs).bind fun o =>
        (g.node? o).bind (·.kind.localName?) with _ | x
      · cases op <;> exact .of_single hstores (hconst _) hstores
      · obtain ⟨o, -, ho⟩ := Option.bind_eq_some_iff.1 hx
        have hset : Pointwise g.variableNames.toList base Q fun i => (stores i).set x .nonNull :=
          hstores.set (Graph.mem_variableNames_of_localName? ho) (hconst _)
        cases op with
        | eq =>
          exact .of_split hstores (hconst _) hstores hset
            (hstores.combine hset Nullness.ranking.join_self hjoin)
        | notEq =>
          exact .of_split hstores (hconst _) hset hstores
            (hset.combine hstores Nullness.ranking.join_self hjoin)
        | _ => exact .of_single hstores (hconst _) hstores
    | unary op o => exact .of_single hstores (hconst _) hstores
    | invocation method receiver arguments =>
      refine .of_single hstores (hconst _) ?_
      cases receiver with
      | none => exact hstores
      | some receiver => exact pointwise_dereference hconst hstores receiver
    | fieldAccess receiver field =>
      exact .of_single hstores (hconst _) (pointwise_dereference hconst hstores receiver)
    | creation className arguments => exact .of_single hstores (hconst _) hstores
    | returns value => exact .of_single hstores (hconst _) hstores
    | throws exception => exact .of_single hstores (hconst _) hstores
    | marker label => exact .of_single hstores (hconst _) hstores

end Respects

end NullnessChecker

namespace ConstantChecker

theorem mem_names_initial (c : ConstantChecker) (g : Graph) (x : String) :
    x ∈ (c.initial g).names ↔ x ∈ g.variableNames.toList ∨ x ∈ c.arguments.names := by
  rw [mem_names_iff, or_comm, initial]
  refine (isSome_get?_foldl_set Prod.fst (fun a => Flat.exact a.2) x _ _).trans
    (or_congr_right ?_)
  rw [get?_topFor]
  split <;> simp_all

theorem frames_initial (c : ConstantChecker) (g : Graph) :
    (c.initial g).Frames g.variableNames.toList (c.initial g) where
  bound := fun x hx => mem_names_iff.1 ((c.mem_names_initial g x).2 (.inl hx))
  other := fun _ _ => rfl

/-- An operator compares a variable of the graph, if it compares one. -/
theorem mem_variableNames_of_comparison? {n : Node} {s : VarStore Constant}
    {values : Table Constant} {lhs rhs : NodeId} {x : String} {k : Int64}
    (h : comparison? ⟨n, g.nodes, s, values⟩ lhs rhs = some (x, k)) :
    x ∈ g.variableNames.toList := by
  unfold comparison? at h
  split at h
  · rename_i hx _
    cases h
    exact Graph.mem_variableNames_of_localName? hx
  · split at h
    · rename_i hx _
      cases h
      exact Graph.mem_variableNames_of_localName? hx
    · cases h

section Binary

variable [Nonempty ι] {base : VarStore Constant} {Q : (ι → Constant) → Prop}
  {value : NodeId → (ι → Option Constant) → Prop}
  (hjoin : ∀ {u v : ι → Constant}, Q u → Q v → Q fun i => join (u i) (v i))
  (hmeet : ∀ {u : ι → Constant} (k : Int64), Q u → Q fun i => (u i).meet (.exact k))

include hjoin hmeet

/-- Stores that an operator refines at the same variable by the same constant stay in a relation
that is closed under joins and under refining by a constant. -/
theorem results_binary {n : Node} {op : BinaryOp} {lhs rhs : NodeId}
    {stores : ι → VarStore Constant} {values : ι → Table Constant}
    (hstores : Pointwise g.variableNames.toList base Q stores)
    (hvalue : value n.id fun i => some (Folding.binary op (((values i).get? lhs).getD top)
      (((values i).get? rhs).getD top)))
    (hcompared : op = .eq ∨ op = .notEq → ∀ i j,
      comparison? ⟨n, g.nodes, stores i, values i⟩ lhs rhs =
        comparison? ⟨n, g.nodes, stores j, values j⟩ lhs rhs) :
    Correspondence.Results ⟨Pointwise g.variableNames.toList base Q, value⟩ g n stores fun i =>
      binary op lhs rhs ⟨n, g.nodes, stores i, values i⟩ := by
  let j : ι := Classical.arbitrary ι
  have hrefined : ∀ {x k}, comparison? ⟨n, g.nodes, stores j, values j⟩ lhs rhs = some (x, k) →
      Pointwise g.variableNames.toList base Q fun i => refine (stores i) x k := by
    intro x k hx
    have hmem := mem_variableNames_of_comparison? hx
    exact hstores.set hmem (hmeet k (hstores.getD hmem _))
  cases op with
  | eq =>
    simp only [binary, fun i => hcompared (.inl rfl) i j]
    rcases hx : comparison? ⟨n, g.nodes, stores j, values j⟩ lhs rhs with _ | ⟨x, k⟩
    · exact .of_single hstores hvalue hstores
    · have hset := hrefined hx
      exact .of_split hstores hvalue hset hstores
        (hset.combine hstores Flat.ranking.join_self hjoin)
  | notEq =>
    simp only [binary, fun i => hcompared (.inr rfl) i j]
    rcases hx : comparison? ⟨n, g.nodes, stores j, values j⟩ lhs rhs with _ | ⟨x, k⟩
    · exact .of_single hstores hvalue hstores
    · have hset := hrefined hx
      exact .of_split hstores hvalue hstores hset
        (hstores.combine hset Flat.ranking.join_self hjoin)
  | _ => exact .of_single hstores hvalue hstores

end Binary

theorem respects_frames (c : ConstantChecker) (g : Graph) (base : VarStore Constant) :
    c.transfer.Respects g (fun _ _ => False) (overFrame g.variableNames.toList base) where
  join := fun h h' => h.combine h' Flat.ranking.join_self fun _ _ => trivial
  visit := by
    intro n hn stores values hstores _
    obtain ⟨id, block, kind⟩ := n
    cases kind with
    | assignment x o =>
      exact .of_single hstores trivial (hstores.set (Graph.mem_variableNames hn rfl) trivial)
    | binary op lhs rhs =>
      exact results_binary (fun _ _ => trivial) (fun _ _ => trivial) hstores trivial
        fun _ _ _ => rfl
    | _ => exact .of_single hstores trivial hstores

end ConstantChecker

end Dataflow
