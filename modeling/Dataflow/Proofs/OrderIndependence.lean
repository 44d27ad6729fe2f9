import Dataflow.Proofs.CheckerConvergence
import Dataflow.Proofs.ConstantRising
import Dataflow.Proofs.LeastFixpoint
import Dataflow.Proofs.Visited

/-!
# Constant propagation in either order

Nothing that a run of constant propagation records is above what another run has recorded when it
ends, if blocks leave more from more (`ConstantChecker.absorbed`): a visit of the one run sends no
more than the last visit of the same block does in the other. Runs in different orders then end with
the same stores (`ConstantChecker.order_independent`). They need not otherwise. A test of two
variables for equality sends other stores on if one of them becomes known at another time
(`ConstantChecker.order_matters_comparedVariables`), and so does a block that is not visited again
when a value grows that it reads (`ConstantChecker.order_matters_staleOperand`).
-/

namespace Dataflow.ConstantChecker

open VarStore

variable {c : ConstantChecker} {a a' : Analysis Constant (VarStore Constant)} {g : Graph}
  {visits visits' : List (BlockVisit Constant (VarStore Constant))}
  {s s' : RunState Constant (VarStore Constant)} {v v' : BlockVisit Constant (VarStore Constant)}

section Runs

variable (hg : g.WellFormed) (hpaths : g.OperandsOnPaths)

include hg hpaths

/-- A literal of another block has its value when it is read. -/
theorem get?_values_of_literal (ha : a.transfer = c.transfer) (h : a.Reaches g visits s)
    (hv : a.nextVisit? g s = some v) {n m : Node} (hn : n ∈ g.nodesOf v.block) {o : NodeId}
    (ho : o ∈ n.kind.operands) (hm : g.node? o = some m) {l : Literal} (hl : m.kind = .literal l)
    (hout : m.block ≠ n.block) : s.values.get? o = some (literalConstant l) := by
  obtain ⟨b, rest, -, hblock, hentry, -⟩ := Analysis.nextVisit?_eq_some hv
  obtain ⟨hnode, rfl⟩ := (hg.mem_nodesOf_iff hblock).1 hn
  obtain ⟨m', hm', hown | hpath⟩ := hpaths hnode o ho <;>
    obtain rfl : m = m' := Option.some.inj (hm.symm.trans hm')
  · exact absurd hown hout
  · have hrecorded := Option.isSome_iff_exists.2 ⟨_, hentry⟩
    obtain ⟨w, hw⟩ := h.exists_lastVisit?_of_onEveryPath hg hrecorded hpath hout
    obtain ⟨state, values, hvalue⟩ := h.get?_values_eq hg hm hw
    rw [hvalue, ha, c.value_of_literal hl]

theorem offered_rising (ha : a.transfer = c.transfer) (ha' : a'.transfer = c.transfer)
    (hfolds : g.FoldsOwnValues) (base : VarStore Constant) (h : a.Reaches g visits s)
    (hv : a.nextVisit? g s = some v) (h' : a'.Reaches g visits' s')
    (hv' : a'.nextVisit? g s' = some v') (hblock : v'.block = v.block) :
    (rising g base).Offered g (Reads g) v.block fun i => bif i then s'.values else s.values := by
  intro n hn o hreads
  have hmem : n ∈ g.nodes := by
    obtain ⟨b, -, -, hb, -⟩ := Analysis.nextVisit?_eq_some hv
    exact Array.mem_of_getElem? ((hg.mem_nodesOf_iff hb).1 hn).1
  obtain ⟨ho, hreads⟩ := hreads
  by_cases hown : ∃ m ∈ g.node? o, m.block = n.block
  · exact .inl ⟨ho, hown⟩
  · have hliteral : g.IsLiteral o :=
      hreads.elim (fun hfold => (hfolds n hmem hfold o ho).resolve_right hown) id
    obtain ⟨m, l, hm, hl⟩ := Graph.isLiteral_iff.1 hliteral
    have hout : m.block ≠ n.block := fun hb => hown ⟨m, hm, hb⟩
    have hknown : ∀ i, (bif i then s'.values else s.values).get? o = some (literalConstant l) := by
      rintro (_ | _)
      · exact get?_values_of_literal hg hpaths ha h hv hn ho hm hl hout
      · exact get?_values_of_literal hg hpaths ha' h' hv' (hblock ▸ hn) ho hm hl hout
    refine .inr fun m' hm' => ?_
    obtain rfl : m = m' := Option.some.inj (hm.symm.trans hm')
    refine ⟨fun l' hl' i => ?_, fun _ => ?_⟩
    · obtain rfl : l = l' := NodeKind.literal.inj (hl.symm.trans hl')
      exact hknown i
    · simp only [hknown]
      exact rising_const _

variable (hfolds : g.FoldsOwnValues) (hcompares : g.ComparesLiterals)

include hfolds hcompares

/-- A visit sends no more than a visit of the same block in another run that begins with more. -/
theorem sent_below (ha : a.transfer = c.transfer) (ha' : a'.transfer = c.transfer)
    (h : a.Reaches g visits s) (hv : a.nextVisit? g s = some v) (h' : a'.Reaches g visits' s')
    (hv' : a'.nextVisit? g s' = some v') (hblock : v'.block = v.block) {base : VarStore Constant}
    (hframes : v.entry.Frames g.variableNames.toList base)
    (hframes' : v'.entry.Frames g.variableNames.toList base) (hbelow : below v.entry v'.entry)
    {e : Edge} {target : BlockId} (he : (e, target) ∈ v.block.shape.edges)
    {state state' : VarStore Constant} (hstate : v.sent e = some state)
    (hstate' : v'.sent e = some state') : below state state' := by
  obtain ⟨b, -, -, hb, -, hnodes, -⟩ := Analysis.nextVisit?_eq_some hv
  obtain ⟨b', -, -, hb', -, hnodes', -⟩ := Analysis.nextVisit?_eq_some hv'
  rw [BlockVisit.sent, hnodes, ha] at hstate
  rw [BlockVisit.sent, hnodes', ha', hblock] at hstate'
  exact (c.respects_rising hg hfolds hcompares base).sent_below Flat.lawful.below_refl hg hb hframes
    hframes' hbelow (offered_rising hg hpaths ha ha' hfolds base h hv h' hv' hblock) he hstate
    hstate'

/-- A visit that begins with no more than another run has recorded at its block sends no more than
that run has recorded at the target. -/
theorem absorbs_sent (ha : a.transfer = c.transfer) (ha' : a'.transfer = c.transfer)
    (h : a.Reaches g visits s) (hv : a.nextVisit? g s = some v) (h' : a'.Reaches g visits' s')
    (hqueue' : s'.queue = []) (hentry : Absorbs s'.stateBefore? v.block.id v.entry)
    (hframes : v.entry.Frames g.variableNames.toList (c.initial g)) {e : Edge} {target : BlockId}
    (he : (e, target) ∈ v.block.shape.edges) {state : VarStore Constant}
    (hstate : v.sent e = some state) : Absorbs s'.stateBefore? target state := by
  have hS : Lawful (VarStore Constant) := VarStore.lawful Flat.lawful
  obtain ⟨y, hy, hbelow⟩ := hentry
  -- The other run recorded at the target what its last visit of the block sent there.
  obtain ⟨v', hmem, hvb, rfl, before, s'', hs'', hv'⟩ :=
    h'.exists_visit_of_stateBefore? hg hqueue' hy
  have hblock : v'.block = v.block := by
    obtain ⟨b, -, -, hb, -⟩ := Analysis.nextVisit?_eq_some hv
    obtain rfl := hg.block_id hb
    exact Option.some.inj ((hvb ▸ (h'.runInv hg).visited_block v' hmem).symm.trans hb)
  obtain ⟨state', hstate'⟩ : ∃ state', v'.sent e = some state' := by
    rw [← Option.isSome_iff_exists, BlockVisit.sent, Pass.isSome_sent, hblock,
      ← Pass.isSome_sent v.block.shape v.entry v.nodes, ← BlockVisit.sent, hstate]
    rfl
  obtain ⟨z, hz, hbelow'⟩ :=
    h'.absorbs_of_arrives hS (.inr ⟨v', hmem, e, hblock ▸ he, hstate'⟩)
  have hframes' := ((c.framed ha' g).keeps hg Flat.ranking h').2 v' hmem
  have hsent := sent_below hg hpaths hfolds hcompares ha ha' h hv hs'' hv' hblock hframes hframes'
    hbelow he hstate hstate'
  exact ⟨z, hz, hS.below_trans hsent hbelow'⟩

/-- What a run records is below what another run has recorded when nothing waits any more. -/
theorem absorbed (ha : a.transfer = c.transfer) (ha' : a'.transfer = c.transfer)
    (hwiden : a.config.widening = .never) (h : a.Reaches g visits s) (h' : a'.Reaches g visits' s')
    (hqueue' : s'.queue = []) {b : BlockId} {x : VarStore Constant}
    (hx : s.stateBefore? b = some x) : Absorbs s'.stateBefore? b x := by
  have hS : Lawful (VarStore Constant) := VarStore.lawful Flat.lawful
  have hframed := c.framed ha g
  let P : BlockId → VarStore Constant → Prop := fun b x =>
    Absorbs s'.stateBefore? b x ∧ x.Frames g.variableNames.toList (c.initial g)
  have hkept := h.recorded_induction hg (P := fun b _ => P b) (A := P)
    ⟨h'.absorbs_of_arrives hS (.inl ⟨rfl, by rw [ha, ha']⟩), hframed.initial⟩ id
    (fun {b k x y} hx hy _ _ => by
      rw [hwiden, Widening.merge_never]
      exact ⟨hx.1.join hS hy.1, hx.2.combine hy.2 Flat.join_self⟩)
    (fun {visits s v k} hs hv hx {e target} he {state} hstate => by
      obtain ⟨b, -, -, hb, -, hnodes, -⟩ := Analysis.nextVisit?_eq_some hv
      refine ⟨absorbs_sent hg hpaths hfolds hcompares ha ha' hs hv h' hqueue' hx.1 hx.2 he hstate,
        ?_⟩
      rw [BlockVisit.sent, hnodes] at hstate
      exact hframed.frames_sent hg hb hx.2 _ he hstate)
  exact (hkept.1.recorded hx).1

end Runs

/-- Constant propagation finds the same store before every block, in whatever order it visits the
blocks, if assignments and operators other than conditions read literals and nodes of their own
block, and conditions compare variables for equality with literals only. -/
theorem order_independent {operations : List Operation} (hbuild : Graph.build operations = .ok g)
    (hpaths : g.OperandsOnPaths) (hfolds : g.FoldsOwnValues) (hcompares : g.ComparesLiterals)
    (c : ConstantChecker) (ha : a.transfer = c.transfer) (ha' : a'.transfer = c.transfer)
    (hwiden : a.config.widening = .never) (hwiden' : a'.config.widening = .never)
    (hfree : a.Unhindered (2 * g.variableNames.size + 1))
    (hfree' : a'.Unhindered (2 * g.variableNames.size + 1)) {fuel fuel' : Nat}
    (hfuel : g.blocks.size * (2 * g.variableNames.size + 1) < fuel)
    (hfuel' : g.blocks.size * (2 * g.variableNames.size + 1) < fuel') :
    ∃ r r' sol sol', a.runFor g fuel = some r ∧ r.result = .ok sol ∧
      a'.runFor g fuel' = some r' ∧ r'.result = .ok sol' ∧
      ∀ b, sol.stateBefore? b = sol'.stateBefore? b := by
  have hg := wellFormed_of_build hbuild
  rw [g.size_variableNames, Nat.mul_comm 2] at hfree hfree' hfuel hfuel'
  obtain ⟨r, sol, hr, hsol, -⟩ := (c.framed ha g).convergesWithin hg Flat.ranking hfree fuel hfuel
  obtain ⟨r', sol', hr', hsol', -⟩ :=
    (c.framed ha' g).convergesWithin hg Flat.ranking hfree' fuel' hfuel'
  refine ⟨r, r', sol, sol', hr, hsol, hr', hsol', ?_⟩
  obtain ⟨s, hs, hqueue, rfl⟩ := Analysis.reaches_of_result_eq_ok hg hr hsol
  obtain ⟨s', hs', hqueue', rfl⟩ := Analysis.reaches_of_result_eq_ok hg hr' hsol'
  exact Absorbs.antisymm (VarStore.lawful Flat.lawful)
    (fun _ _ => absorbed hg hpaths hfolds hcompares ha ha' hwiden hs hs' hqueue')
    fun _ _ => absorbed hg hpaths hfolds hcompares ha' ha hwiden' hs' hs hqueue

/-! ## Runs in both orders -/

def uncapped (c : ConstantChecker) (order : WorklistOrder) :
    Analysis Constant (VarStore Constant) where
  transfer := c.transfer
  config := { maxBlockVisits := none, order := order }

theorem unhindered_uncapped (c : ConstantChecker) (order : WorklistOrder) (visits : Nat) :
    (c.uncapped order).Unhindered visits :=
  ⟨rfl, fun _ => rfl, nofun⟩

/-- The loop that tests what it has read ends with the same stores in both orders. -/
theorem order_independent_rereadLoop :
    let c : ConstantChecker := ⟨.ofList [("x", 1)]⟩
    ∃ r r' sol sol', (c.uncapped .reversePostorder).runFor rereadLoopGraph 16 = some r ∧
      r.result = .ok sol ∧ (c.uncapped .fifo).runFor rereadLoopGraph 16 = some r' ∧
      r'.result = .ok sol' ∧ ∀ b, sol.stateBefore? b = sol'.stateBefore? b := by
  intro c
  exact order_independent build_rereadLoop operandsOnPaths_rereadLoop (by decide) (by decide) c
    rfl rfl rfl rfl (c.unhindered_uncapped _ _) (c.unhindered_uncapped _ _) (by decide) (by decide)

/-- Whether the two orders find different stores before a block. -/
def ordersDiffer (c : ConstantChecker) (operations : List Operation) (fuel : Nat) (b : BlockId) :
    Bool :=
  ((c.uncapped .reversePostorder).solve? operations fuel).any fun found =>
    ((c.uncapped .fifo).solve? operations fuel).any fun found' =>
      found.2.stateBefore? b ≠ found'.2.stateBefore? b

theorem exists_of_ordersDiffer {operations : List Operation}
    (hbuild : Graph.build operations = .ok g) {fuel : Nat} {b : BlockId}
    (h : c.ordersDiffer operations fuel b) :
    ∃ r r' sol sol', (c.uncapped .reversePostorder).runFor g fuel = some r ∧ r.result = .ok sol ∧
      (c.uncapped .fifo).runFor g fuel = some r' ∧ r'.result = .ok sol' ∧
      sol.stateBefore? b ≠ sol'.stateBefore? b := by
  obtain ⟨⟨g₁, sol⟩, hsolve, h⟩ := (Option.any_eq_true _ _).1 h
  obtain ⟨⟨g₂, sol'⟩, hsolve', hdiffers⟩ := (Option.any_eq_true _ _).1 h
  obtain ⟨hg₁, r, hr, hsol⟩ := Analysis.solve?_eq_some hsolve
  obtain ⟨hg₂, r', hr', hsol'⟩ := Analysis.solve?_eq_some hsolve'
  obtain rfl : g = g₁ := Except.ok.inj (hbuild.symm.trans hg₁)
  obtain rfl : g = g₂ := Except.ok.inj (hbuild.symm.trans hg₂)
  exact ⟨r, r', sol, sol', hr, hsol, hr', hsol', of_decide_eq_true hdiffers⟩

/-- Two ways that differ in the value of `y`, and then a test whether `x` equals `y`. -/
def comparedVariables : List Operation :=
  [.addConditional, .pushNode 3 (.marker "m"), .addRegular, .pushNode 4 (.literal (.int 3)),
    .pushNode 4 (.assignment "y" 1), .addRegular, .pushNode 5 (.localVariable "x"),
    .pushNode 5 (.localVariable "y"), .addConditional, .pushNode 6 (.binary .eq 3 4),
    .connect 0 3, .connectBranches 3 5 4, .connect 4 5, .connect 5 6, .connectBranches 6 1 2]

def comparedVariablesGraph : Graph :=
  .ofTables
    #[⟨0, .entry 3⟩, ⟨1, .exit⟩, ⟨2, .exceptionalExit⟩,
      ⟨3, .conditional 0 ⟨5, .eachToEach⟩ ⟨4, .eachToEach⟩⟩, ⟨4, .regular [1, 2] 5⟩,
      ⟨5, .regular [3, 4] 6⟩, ⟨6, .conditional 5 ⟨1, .eachToEach⟩ ⟨2, .eachToEach⟩⟩]
    #[⟨0, 3, .marker "m"⟩, ⟨1, 4, .literal (.int 3)⟩, ⟨2, 4, .assignment "y" 1⟩,
      ⟨3, 5, .localVariable "x"⟩, ⟨4, 5, .localVariable "y"⟩, ⟨5, 6, .binary .eq 3 4⟩]

theorem build_comparedVariables : Graph.build comparedVariables = .ok comparedVariablesGraph := rfl

/-- While `y` is known to be two, the test refines `x`, which is one, and not `y`. One order comes
to the test before it has found the other value of `y`, and what the test sends then stays. -/
theorem order_matters_comparedVariables :
    let c : ConstantChecker := ⟨.ofList [("x", 1), ("y", 2)]⟩
    ∃ g r r' sol sol', Graph.build comparedVariables = .ok g ∧ g.OperandsOnPaths ∧
      g.FoldsOwnValues ∧ (c.uncapped .reversePostorder).runFor g 20 = some r ∧
      r.result = .ok sol ∧ (c.uncapped .fifo).runFor g 20 = some r' ∧ r'.result = .ok sol' ∧
      sol.stateBefore? exitBlock ≠ sol'.stateBefore? exitBlock := by
  intro c
  have hpaths : comparedVariablesGraph.OperandsOnPaths :=
    Graph.operandsOnPaths_of_closed [0, 3, 4] (d := 5) (by decide) (by decide) (by decide)
  have hdiffer : c.ordersDiffer comparedVariables 20 exitBlock := by
    decide +kernel
  obtain ⟨r, r', sol, sol', hruns⟩ := exists_of_ordersDiffer build_comparedVariables hdiffer
  exact ⟨_, r, r', sol, sol', build_comparedVariables, hpaths, by decide, hruns⟩

/-- Two ways that differ in the value of `x`, then a block that reads and sets it, and then one that
assigns what has been read. -/
def staleOperand : List Operation :=
  [.addConditional, .pushNode 3 (.marker "m"), .addRegular, .pushNode 4 (.literal (.int 3)),
    .pushNode 4 (.assignment "x" 1), .addRegular, .pushNode 5 (.localVariable "x"),
    .pushNode 5 (.literal (.int 5)), .pushNode 5 (.assignment "x" 4), .addRegular,
    .pushNode 6 (.assignment "y" 3), .connect 0 3, .connectBranches 3 5 4, .connect 4 5,
    .connect 5 6, .connect 6 1]

def staleOperandGraph : Graph :=
  .ofTables
    #[⟨0, .entry 3⟩, ⟨1, .exit⟩, ⟨2, .exceptionalExit⟩,
      ⟨3, .conditional 0 ⟨5, .eachToEach⟩ ⟨4, .eachToEach⟩⟩, ⟨4, .regular [1, 2] 5⟩,
      ⟨5, .regular [3, 4, 5] 6⟩, ⟨6, .regular [6] 1⟩]
    #[⟨0, 3, .marker "m"⟩, ⟨1, 4, .literal (.int 3)⟩, ⟨2, 4, .assignment "x" 1⟩,
      ⟨3, 5, .localVariable "x"⟩, ⟨4, 5, .literal (.int 5)⟩, ⟨5, 5, .assignment "x" 4⟩,
      ⟨6, 6, .assignment "y" 3⟩]

theorem build_staleOperand : Graph.build staleOperand = .ok staleOperandGraph := rfl

/-- One order comes to the assignment before it has found the other value of `x`, and does not come
back to it, as the store before it stays the same. -/
theorem order_matters_staleOperand :
    let c : ConstantChecker := ⟨.ofList [("x", 1)]⟩
    ∃ g r r' sol sol', Graph.build staleOperand = .ok g ∧ g.OperandsOnPaths ∧
      g.ComparesLiterals ∧ (c.uncapped .reversePostorder).runFor g 20 = some r ∧
      r.result = .ok sol ∧ (c.uncapped .fifo).runFor g 20 = some r' ∧ r'.result = .ok sol' ∧
      sol.stateBefore? exitBlock ≠ sol'.stateBefore? exitBlock := by
  intro c
  have hpaths : staleOperandGraph.OperandsOnPaths :=
    Graph.operandsOnPaths_of_closed [0, 3, 4] (d := 5) (by decide) (by decide) (by decide)
  have hdiffer : c.ordersDiffer staleOperand 20 exitBlock := by
    decide +kernel
  obtain ⟨r, r', sol, sol', hruns⟩ := exists_of_ordersDiffer build_staleOperand hdiffer
  exact ⟨_, r, r', sol, sol', build_staleOperand, hpaths, by decide, hruns⟩

end Dataflow.ConstantChecker
