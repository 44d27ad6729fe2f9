import Dataflow.Proofs.CheckerFrames
import Dataflow.Proofs.Monotone

/-!
# Constant propagation from greater stores

Folding and refining by a fixed constant are monotone. A comparison of two variables is not: which
of them it refines, and whether it does, depends on which values are known. The checker therefore
leaves more from more (`ConstantChecker.respects_rising`) where what it reads of other blocks are
literals and where conditions compare variables with literals only (`Graph.ComparesLiterals`).
Outside of conditions the two outcomes of a test are joined again, and a refinement is undone.
-/

namespace Dataflow

open VarStore

/-! ## Values -/

namespace Folding

theorem binary_bottom_right (op : BinaryOp) (a : Constant) : binary op a .bottom = .bottom := by
  cases a <;> rfl

theorem binary_mono (op : BinaryOp) {a a' b b' : Constant} (ha : below a a') (hb : below b b') :
    below (binary op a b) (binary op a' b') := by
  rw [Flat.below_iff] at ha hb ⊢
  rcases ha with rfl | rfl | rfl
  · exact .inl rfl
  · rcases hb with rfl | rfl | rfl
    · exact .inl (binary_bottom_right op a)
    · exact .inr (.inl rfl)
    · cases a with
      | bottom => exact .inl rfl
      | _ => exact .inr (.inr rfl)
  · rcases hb with rfl | rfl | rfl
    · exact .inl (binary_bottom_right op a)
    · cases b with
      | bottom => exact .inl (binary_bottom_right op a)
      | _ => exact .inr (.inr rfl)
    · exact .inr (.inr rfl)

theorem unary_mono (op : UnaryOp) {a a' : Constant} (h : below a a') :
    below (unary op a) (unary op a') := by
  rw [Flat.below_iff] at h ⊢
  rcases h with rfl | rfl | rfl
  · exact .inl (by cases op <;> rfl)
  · exact .inr (.inl rfl)
  · exact .inr (.inr (by cases op <;> rfl))

end Folding

/-! ## What matters -/

namespace NodeKind

def literal? : NodeKind → Option Literal
  | literal value => some value
  | _ => none

def isAssignment : NodeKind → Bool
  | assignment .. => true
  | _ => false

def isOperator : NodeKind → Bool
  | binary .. | unary .. => true
  | _ => false

/-- The operands of a test for equality. -/
def equated? : NodeKind → Option (NodeId × NodeId)
  | binary .eq lhs rhs | binary .notEq lhs rhs => some (lhs, rhs)
  | _ => none

end NodeKind

namespace Graph

variable (g : Graph)

def IsLiteral (o : NodeId) : Prop :=
  ((g.node? o).bind (·.kind.literal?)).isSome

def IsLocal (o : NodeId) : Prop :=
  ((g.node? o).bind (·.kind.localName?)).isSome

instance (o : NodeId) : Decidable (g.IsLiteral o) :=
  inferInstanceAs (Decidable (_ = true))

instance (o : NodeId) : Decidable (g.IsLocal o) :=
  inferInstanceAs (Decidable (_ = true))

/-- An assignment, or an operator other than a condition. -/
def Folds (n : Node) : Prop :=
  n.kind.isAssignment ∨ n.kind.isOperator ∧ ¬g.IsCondition n

instance (n : Node) : Decidable (g.Folds n) :=
  inferInstanceAs (Decidable (_ ∨ _))

/-- Assignments and operators other than conditions read literals and nodes of their own block. -/
def FoldsOwnValues : Prop :=
  ∀ n ∈ g.nodes, g.Folds n → ∀ o ∈ n.kind.operands,
    g.IsLiteral o ∨ ∃ m ∈ g.node? o, m.block = n.block

instance : Decidable g.FoldsOwnValues :=
  inferInstanceAs <| Decidable <| ∀ n ∈ g.nodes, g.Folds n → ∀ o ∈ n.kind.operands,
    g.IsLiteral o ∨ ∃ m ∈ g.node? o, m.block = n.block

/-- A condition that tests a variable for equality compares it with a literal. -/
def ComparesLiterals : Prop :=
  ∀ n ∈ g.nodes, g.IsCondition n → ∀ operands ∈ n.kind.equated?,
    (g.IsLocal operands.1 → g.IsLiteral operands.2) ∧
      (g.IsLocal operands.2 → g.IsLiteral operands.1)

instance : Decidable g.ComparesLiterals :=
  inferInstanceAs <| Decidable <| ∀ n ∈ g.nodes, g.IsCondition n → ∀ operands ∈ n.kind.equated?,
    (g.IsLocal operands.1 → g.IsLiteral operands.2) ∧
      (g.IsLocal operands.2 → g.IsLiteral operands.1)

variable {g}

theorem isLiteral_iff {o : NodeId} :
    g.IsLiteral o ↔ ∃ m l, g.node? o = some m ∧ m.kind = .literal l := by
  rw [IsLiteral, Option.isSome_iff_exists]
  simp only [Option.bind_eq_some_iff]
  constructor
  · rintro ⟨l, m, hm, hl⟩
    obtain ⟨id, block, kind⟩ := m
    cases kind <;> cases hl
    exact ⟨_, l, hm, rfl⟩
  · rintro ⟨m, l, hm, hl⟩
    exact ⟨l, m, hm, by rw [hl]; rfl⟩

theorem IsLiteral.localName?_eq_none {o : NodeId} (h : g.IsLiteral o) :
    (g.node? o).bind (·.kind.localName?) = none := by
  obtain ⟨m, l, hm, hl⟩ := isLiteral_iff.1 h
  rw [hm, Option.bind_some, hl]
  rfl

namespace WellFormed

variable (hg : g.WellFormed)

include hg

theorem node?_of_mem {n : Node} (hn : n ∈ g.nodes) : g.node? n.id = some n := by
  obtain ⟨i, hi⟩ := Array.mem_iff_getElem?.1 hn
  have hid : n.id = i := hg.node_id hi
  rwa [hid]

/-- A condition is the only node of its block. -/
theorem not_isCondition_of_operand {n m : Node} (hn : n ∈ g.nodes) {o : NodeId}
    (ho : o ∈ n.kind.operands) (hm : g.node? o = some m) (hmb : m.block = n.block) :
    ¬g.IsCondition m := by
  rintro ⟨block, hblock, hkind⟩
  obtain ⟨k, hk⟩ := hg.exists_nodesOf_eq_singleton hblock hkind
  have hnode := hg.node?_of_mem hn
  have hmem : ∀ n', g.node? n'.id = some n' → n'.block = m.block → n' = k := by
    intro n' hn' hb
    simpa [hk] using (hg.mem_nodesOf_iff hblock).2 ⟨hn', hb⟩
  have hid : m.id = o := hg.node_id hm
  have hlt : o < n.id := hg.operand_lt hnode o ho
  rw [hmem n hnode hmb.symm, ← hmem m (by rwa [hid]) rfl, hid] at hlt
  exact Nat.lt_irrefl _ hlt

end WellFormed

end Graph

namespace ConstantChecker

def literalConstant : Literal → Constant
  | .int n => .exact n
  | .bool b => .exact (Folding.ofBool b)
  | _ => .top

theorem value_of_literal (c : ConstantChecker) {n : Node} {l : Literal} (h : n.kind = .literal l)
    (nodes : Array Node) (s : VarStore Constant) (values : Table Constant) :
    (c.transfer.visit ⟨n, nodes, s, values⟩).value = literalConstant l := by
  obtain ⟨id, block, kind⟩ := n
  cases h
  rfl

variable (g : Graph)

/-- What the store after a node turns on, and the value of a node other than a condition. -/
def Reads (n : Node) (o : NodeId) : Prop :=
  o ∈ n.kind.operands ∧ (g.Folds n ∨ g.IsLiteral o)

/-- Of two stores the first is below the second, and so are the values of a node, unless it is a
condition; literals have their values. -/
def rising (base : VarStore Constant) : Correspondence Bool Constant (VarStore Constant) where
  state := Pointwise g.variableNames.toList base Rising
  value o u := ∀ m, g.node? o = some m →
    (∀ l, m.kind = .literal l → ∀ i, u i = some (literalConstant l)) ∧
      (¬g.IsCondition m → Rising fun i => (u i).getD top)

variable {g} {base : VarStore Constant}

theorem rising_const (v : Constant) : Rising fun _ => v :=
  Flat.lawful.below_refl v

theorem rising_join {stores stores' : Bool → VarStore Constant} (h : (rising g base).state stores)
    (h' : (rising g base).state stores') :
    (rising g base).state fun i => join (stores i) (stores' i) :=
  h.combine h' Flat.ranking.join_self fun hu hv => Flat.lawful.join_mono hu hv

/-! ## Tests -/

theorem value_binary (op : BinaryOp) (lhs rhs : NodeId) (i : Input) :
    (binary op lhs rhs i).value = Folding.binary op (i.valueOrTop lhs) (i.valueOrTop rhs) := by
  unfold binary
  split <;> rfl

theorem thrown_binary (op : BinaryOp) (lhs rhs : NodeId) (i : Input) :
    (binary op lhs rhs i).thrown = .empty := by
  unfold binary
  split <;> rfl

theorem join_refine {s : VarStore Constant} {x : String} (hx : (s.get? x).isSome) (k : Int64) :
    join (refine s x k) s = s := by
  obtain ⟨u, hu⟩ := Option.isSome_iff_exists.1 hx
  refine ext_get? fun y => ?_
  rw [get?_join, refine, get?_set]
  split_ifs with hy
  · subst hy
    rw [hu]
    exact congrArg some (Flat.meet_join u _)
  · cases s.get? y with
    | none => rfl
    | some v => exact congrArg some (Flat.join_self v)

theorem joined_binary_of_bound {op : BinaryOp} {lhs rhs : NodeId} {i : Input}
    (hbound : ∀ x k, comparison? i lhs rhs = some (x, k) → (i.state.get? x).isSome) :
    (binary op lhs rhs i).outflow.joined = i.state := by
  unfold binary
  rcases hx : comparison? i lhs rhs with _ | ⟨x, k⟩
  · cases op <;> rfl
  · have hjoin := join_refine (hbound x k hx) k
    cases op with
    | eq => exact hjoin
    | notEq => exact ((lawful Flat.lawful).join_comm _ _).trans hjoin
    | _ => rfl

theorem joined_binary {n : Node} {s : VarStore Constant} {values : Table Constant}
    (hs : s.Frames g.variableNames.toList base) (op : BinaryOp) (lhs rhs : NodeId) :
    (binary op lhs rhs ⟨n, g.nodes, s, values⟩).outflow.joined = s :=
  joined_binary_of_bound fun x _ hx => hs.bound x (mem_variableNames_of_comparison? hx)

/-- A comparison of literals with variables does not depend on the store. -/
theorem comparison?_congr {n : Node} {lhs rhs : NodeId} (hlhs : g.IsLocal lhs → g.IsLiteral rhs)
    (hrhs : g.IsLocal rhs → g.IsLiteral lhs) {values values' : Table Constant}
    (hvalues : ∀ o ∈ [lhs, rhs], g.IsLiteral o → values.get? o = values'.get? o)
    (s s' : VarStore Constant) :
    comparison? ⟨n, g.nodes, s, values⟩ lhs rhs =
      comparison? ⟨n, g.nodes, s', values'⟩ lhs rhs := by
  have hname : ∀ s values o, NodeInput.localName? (V := Constant) (S := VarStore Constant)
      ⟨n, g.nodes, s, values⟩ o = (g.node? o).bind (·.kind.localName?) := fun _ _ _ => rfl
  simp only [comparison?, constant?, NodeInput.value?, hname]
  rcases hx : (g.node? lhs).bind (·.kind.localName?) with _ | x
  · rcases hy : (g.node? rhs).bind (·.kind.localName?) with _ | y
    · rfl
    · rw [hvalues lhs (by simp) (hrhs (by rw [Graph.IsLocal, hy]; rfl))]
  · have hliteral := hlhs (by rw [Graph.IsLocal, hx]; rfl)
    rw [hvalues rhs (by simp) hliteral, hliteral.localName?_eq_none]

/-! ## Visits -/

section Visit

variable (hg : g.WellFormed) {n : Node} (hn : n ∈ g.nodes)

include hg hn

theorem rising_value {v : Bool → Constant}
    (hliteral : ∀ l, n.kind = .literal l → ∀ i, v i = literalConstant l)
    (hv : ¬g.IsCondition n → Rising v) : (rising g base).value n.id fun i => some (v i) := by
  intro m hm
  obtain rfl : n = m := Option.some.inj ((hg.node?_of_mem hn).symm.trans hm)
  exact ⟨fun l hl i => congrArg some (hliteral l hl i), hv⟩

variable {values : Bool → Table Constant}
  (hvalues : ∀ o, Reads g n o → (rising g base).value o fun i => (values i).get? o)

include hvalues

theorem rising_operand (hfolds : g.FoldsOwnValues) (hfold : g.Folds n) {o : NodeId}
    (ho : o ∈ n.kind.operands) : Rising fun i => ((values i).get? o).getD top := by
  have hvalue := hvalues o ⟨ho, .inl hfold⟩
  rcases hfolds n hn hfold o ho with hliteral | ⟨m, hm, hmb⟩
  · obtain ⟨m, l, hm, hl⟩ := Graph.isLiteral_iff.1 hliteral
    simp only [(hvalue m hm).1 l hl]
    exact rising_const _
  · exact (hvalue m hm).2 (hg.not_isCondition_of_operand hn ho hm hmb)

omit hg hn in
theorem get?_eq_of_isLiteral {o : NodeId} (ho : o ∈ n.kind.operands) (hliteral : g.IsLiteral o)
    (i j : Bool) : (values i).get? o = (values j).get? o := by
  obtain ⟨m, l, hm, hl⟩ := Graph.isLiteral_iff.1 hliteral
  have hknown := (hvalues o ⟨ho, .inr hliteral⟩ m hm).1 l hl
  exact (hknown i).trans (hknown j).symm

end Visit

/-- Outside of conditions the outcomes are joined to the store before. -/
theorem results_of_not_isCondition {n : Node} {op : BinaryOp} {lhs rhs : NodeId}
    {stores : Bool → VarStore Constant} {values : Bool → Table Constant}
    (hstores : Pointwise g.variableNames.toList base Rising stores)
    (hvalue : (rising g base).value n.id fun i =>
      some (Folding.binary op (((values i).get? lhs).getD top) (((values i).get? rhs).getD top)))
    (hn : ¬g.IsCondition n) :
    (rising g base).Results g n stores fun i =>
      binary op lhs rhs ⟨n, g.nodes, stores i, values i⟩ where
  value := by
    simp only [value_binary]
    exact hvalue
  joined := by
    simp only [joined_binary (hstores.frames _)]
    exact hstores
  thenState := fun h => absurd h hn
  elseState := fun h => absurd h hn
  thrown := fun e => by
    simp only [thrown_binary]
    exact hstores

/-- Constant propagation leaves more from more, where nothing that changes is read of other blocks
and conditions compare variables with literals only. -/
theorem respects_rising (c : ConstantChecker) (hg : g.WellFormed) (hfolds : g.FoldsOwnValues)
    (hcompares : g.ComparesLiterals) (base : VarStore Constant) :
    c.transfer.Respects g (Reads g) (rising g base) where
  join := rising_join
  visit := by
    intro n hn stores values hstores hvalues
    have hoperand : g.Folds n → ∀ o ∈ n.kind.operands,
        Rising fun i => ((values i).get? o).getD top :=
      fun hfold _ ho => rising_operand hg hn hvalues hfolds hfold ho
    have hplain : ∀ {v : Bool → Constant}, n.kind.literal? = none →
        (¬g.IsCondition n → Rising v) → (rising g base).value n.id fun i => some (v i) :=
      fun hl hv => rising_value hg hn (fun l h => by simp [h, NodeKind.literal?] at hl) hv
    obtain ⟨id, block, kind⟩ := n
    cases kind with
    | localVariable x =>
      exact .of_single hstores
        (hplain rfl fun _ => hstores.getD (Graph.mem_variableNames hn rfl) _) hstores
    | literal l =>
      refine .of_single hstores (rising_value hg hn (fun l' hl' _ => ?_) fun _ => rising_const _)
        hstores
      exact c.value_of_literal hl' g.nodes (stores true) (values true)
    | assignment x o =>
      have ho := hoperand (.inl rfl) o (List.mem_singleton_self o)
      exact .of_single hstores (hplain rfl fun _ => ho)
        (hstores.set (Graph.mem_variableNames hn rfl) ho)
    | binary op lhs rhs =>
      have hvalue : (rising g base).value id fun i => some (Folding.binary op
          (((values i).get? lhs).getD top) (((values i).get? rhs).getD top)) := by
        refine hplain rfl fun hcondition => Folding.binary_mono op ?_ ?_
        · exact hoperand (.inr ⟨rfl, hcondition⟩) lhs (by simp [NodeKind.operands])
        · exact hoperand (.inr ⟨rfl, hcondition⟩) rhs (by simp [NodeKind.operands])
      -- At a condition either outcome may go on by itself, elsewhere they are joined again.
      by_cases hcondition : g.IsCondition ⟨id, block, .binary op lhs rhs⟩
      · refine results_binary (fun hu hv => Flat.lawful.join_mono hu hv)
          (fun k hu => Flat.meet_mono (d := .exact k) hu (Flat.below_refl _)) hstores hvalue
          fun hop i j => ?_
        obtain ⟨hlhs, hrhs⟩ := hcompares _ hn hcondition (lhs, rhs)
          (by rcases hop with rfl | rfl <;> rfl)
        exact comparison?_congr hlhs hrhs
          (fun o ho hliteral => get?_eq_of_isLiteral hvalues ho hliteral i j) _ _
      · exact results_of_not_isCondition hstores hvalue hcondition
    | unary op o =>
      have ho : ¬g.IsCondition ⟨id, block, .unary op o⟩ →
          Rising fun i => Folding.unary op (((values i).get? o).getD top) := fun hcondition =>
        Folding.unary_mono op
          (hoperand (.inr ⟨rfl, hcondition⟩) o (List.mem_singleton_self o))
      exact .of_single hstores (hplain rfl ho) hstores
    | _ => exact .of_single hstores (hplain rfl fun _ => rising_const _) hstores

end ConstantChecker

end Dataflow
