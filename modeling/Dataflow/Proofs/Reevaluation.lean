import Dataflow.Checker.Constant
import Dataflow.Proofs.LawfulStores
import Dataflow.Proofs.Paths
import Dataflow.Proofs.RunInvariant

/-!
# Reevaluation

A block that is visited again from its final state, with the final values of other blocks, comes to
what is recorded of it if those values are still the ones that its last visit was offered
(`reevaluation_of_result_eq_ok`). They need not be: a block is queued when its state grows, and not
when a value does that it reads (`reevaluation_differs`).
-/

namespace Dataflow

variable {V S : Type}

/-- What a visit of a node has seen and come to. -/
def NodeVisit.seen (v : NodeVisit V S) : Node × S × List (Option V) × NodeResult V S :=
  (v.node, v.state, v.operands, v.result)

/-- Every operand from another block still has the value that the visit was offered. -/
def BlockVisit.OperandsKept (g : Graph) (values : Table V) (v : BlockVisit V S) : Prop :=
  ∀ w ∈ v.nodes, ∀ offered ∈ w.node.kind.operands.zip w.operands,
    (∀ operand ∈ g.node? offered.1, operand.block ≠ v.block.id) →
      offered.2 = values.get? offered.1

instance [DecidableEq V] (g : Graph) (values : Table V) (v : BlockVisit V S) :
    Decidable (v.OperandsKept g values) :=
  inferInstanceAs <| Decidable <| ∀ w ∈ v.nodes, ∀ offered ∈ w.node.kind.operands.zip w.operands,
    (∀ operand ∈ g.node? offered.1, operand.block ≠ v.block.id) →
      offered.2 = values.get? offered.1

variable [DecidableEq S] [AbstractDomain S]

def Solution.reevaluate (sol : Solution V S) (t : Transfer V S) (g : Graph) (b : Block)
    (entry : S) : List (NodeVisit V S) :=
  t.pass g.nodes sol.values entry (g.nodesOf b)

theorem operands_pass (t : Transfer V S) {nodes : Array Node} {ns : List Node} {values : Table V}
    {state : S} {pre post : List (NodeVisit V S)} {w : NodeVisit V S}
    (h : t.pass nodes values state ns = pre ++ w :: post) :
    w.operands = w.node.kind.operands.map (Pass.valuesAfter values pre).get? :=
  congrArg NodeVisit.operands (Pass.eq_visitNode_of_pass_eq_append t h)

theorem seen_pass_congr {t : Transfer V S} {g : Graph} (h : t.ReadsOperands g) (ns : List Node)
    (values values' : Table V) (state : S) (hmem : ∀ n ∈ ns, n ∈ g.nodes)
    (hreads : ∀ pre n post, ns = pre ++ n :: post → ∀ o ∈ n.kind.operands,
      o ∈ pre.map Node.id ∨ values.get? o = values'.get? o) :
    (t.pass g.nodes values state ns).map NodeVisit.seen =
      (t.pass g.nodes values' state ns).map NodeVisit.seen := by
  refine map_pass_congr t h NodeVisit.seen (fun n hn state values values' hagree => ?_)
    ns values values' state hmem hreads
  have hresult : t.visit ⟨n, g.nodes, state, values⟩ = t.visit ⟨n, g.nodes, state, values'⟩ :=
    h n hn state values values' hagree
  have hoperands : n.kind.operands.map values.get? = n.kind.operands.map values'.get? :=
    List.map_congr_left hagree
  simp only [NodeVisit.seen, Transfer.visitNode, hresult, Prod.mk.injEq, true_and, and_true]
  exact hoperands

namespace BlockVisit

variable {g : Graph} {v : BlockVisit V S} (hg : g.WellFormed)
  (hblock : g.block? v.block.id = some v.block)

include hg hblock

omit [DecidableEq S] [AbstractDomain S] in
theorem get?_valuesAfter_of_outside {visits : List (NodeVisit V S)}
    (hvisits : ∀ w ∈ visits, w.node ∈ g.nodesOf v.block) {o : NodeId}
    (hout : ∀ operand ∈ g.node? o, operand.block ≠ v.block.id) (values : Table V) :
    (Pass.valuesAfter values visits).get? o = values.get? o := by
  refine Pass.get?_valuesAfter_of_forall_ne (fun w hw hwo => ?_) values
  obtain ⟨hnode, hb⟩ := (hg.mem_nodesOf_iff hblock).1 (hvisits w hw)
  exact hout w.node (hwo ▸ hnode) hb

/-- A visit from the same state sees the same throughout if and only if no operand from another
block has changed. -/
theorem seen_pass_eq_iff {t : Transfer V S} (hreads : t.ReadsOperands g) {values : Table V}
    (hnodes : v.nodes = t.pass g.nodes values v.entry (g.nodesOf v.block)) (values' : Table V) :
    (t.pass g.nodes values' v.entry (g.nodesOf v.block)).map NodeVisit.seen =
      v.nodes.map NodeVisit.seen ↔ v.OperandsKept g values' := by
  have hmem : ∀ (values : Table V) {pre post : List (NodeVisit V S)},
      t.pass g.nodes values v.entry (g.nodesOf v.block) = pre ++ post →
        ∀ w ∈ pre, w.node ∈ g.nodesOf v.block := by
    intro values pre post heq w hw
    rw [← nodes_pass t g.nodes (g.nodesOf v.block) values v.entry, heq]
    exact List.mem_map_of_mem (List.mem_append_left _ hw)
  constructor
  · intro heq w hw offered hoffered hout
    obtain ⟨pre, post, hsplit⟩ := List.append_of_mem hw
    rw [hsplit, List.map_append, List.map_cons] at heq
    obtain ⟨pre', rest, hpass, -, hrest⟩ := List.map_eq_append_iff.1 heq
    obtain ⟨w', post', rfl, hw', -⟩ := List.map_eq_cons_iff.1 hrest
    simp only [NodeVisit.seen, Prod.mk.injEq] at hw'
    rw [← hw'.2.2.1, operands_pass t hpass, hw'.1, ← List.map_prod_left_eq_zip] at hoffered
    obtain ⟨o, -, rfl⟩ := List.mem_map.1 hoffered
    exact get?_valuesAfter_of_outside hg hblock (hmem values' hpass) hout values'
  · intro hkept
    rw [hnodes]
    refine seen_pass_congr hreads _ _ _ _ (fun n hn => ?_) fun pre n post heq o ho => ?_
    · exact Array.mem_of_getElem? ((hg.mem_nodesOf_iff hblock).1 hn).1
    by_cases hin : ∃ operand, g.node? o = some operand ∧ operand.block = v.block.id
    · obtain ⟨operand, hoperand, hb⟩ := hin
      have hn := ((hg.mem_nodesOf_iff hblock (n := n)).1 (by simp [heq])).2
      exact .inl (hg.operand_mem_of_append hblock heq ho hoperand (hb.trans hn.symm))
    · refine .inr ?_
      have hout : ∀ operand ∈ g.node? o, operand.block ≠ v.block.id :=
        fun operand hoperand hb => hin ⟨operand, hoperand, hb⟩
      have hmap := nodes_pass t g.nodes (g.nodesOf v.block) values v.entry
      rw [← hnodes, heq] at hmap
      obtain ⟨vpre, rest, hsplit, -, hrest⟩ := List.map_eq_append_iff.1 hmap
      obtain ⟨w, vpost, rfl, rfl, -⟩ := List.map_eq_cons_iff.1 hrest
      have hw := hkept w (by simp [hsplit])
      rw [hnodes] at hsplit
      rw [operands_pass t hsplit, ← List.map_prod_left_eq_zip] at hw
      have ho := hw _ (List.mem_map_of_mem ho) hout
      rw [get?_valuesAfter_of_outside hg hblock (hmem values hsplit) hout] at ho
      exact ho.symm

end BlockVisit

/-! ## The solution of a run -/

omit [DecidableEq S] [AbstractDomain S] in
theorem NodeVisit.map_outcome_of_map_seen {visits visits' : List (NodeVisit V S)}
    (h : visits.map NodeVisit.seen = visits'.map NodeVisit.seen) :
    visits.map NodeVisit.outcome = visits'.map NodeVisit.outcome := by
  have hmap : ∀ vs : List (NodeVisit V S), vs.map NodeVisit.outcome =
      (vs.map NodeVisit.seen).map fun seen => (seen.1, seen.2.1, seen.2.2.2) := by
    intro vs
    rw [List.map_map]
    rfl
  rw [hmap, hmap, h]

/-- A block that is visited again, from what is recorded at its entry and with the recorded values,
sees the same as on its last visit if and only if its operands from other blocks have kept their
values since then. If they have, it comes to the outflow and the values that are recorded. -/
theorem reevaluation_of_result_eq_ok {operations : List Operation} {g : Graph}
    (hg : Graph.build operations = .ok g) {a : Analysis V S} (hreads : a.transfer.ReadsOperands g)
    {fuel : Nat} {r : Run V S} {sol : Solution V S} (hr : a.runFor g fuel = some r)
    (hsol : r.result = .ok sol) {b : BlockId} (hb : 0 < sol.visitsOf b) :
    ∃ v, lastVisit? (a.visitsFor g fuel) b = some v ∧ g.block? b = some v.block ∧
      sol.stateBefore? b = some v.entry ∧
      ((sol.reevaluate a.transfer g v.block v.entry).map NodeVisit.seen =
        v.nodes.map NodeVisit.seen ↔ v.OperandsKept g sol.values) ∧
      (v.OperandsKept g sol.values →
        sol.outflow? b = some (Pass.outflow v.block.shape v.entry
          (sol.reevaluate a.transfer g v.block v.entry)) ∧
        ∀ w ∈ sol.reevaluate a.transfer g v.block v.entry,
          sol.value? w.node.id = some w.result.value) := by
  have hwf := wellFormed_of_build hg
  obtain ⟨s, hs, hqueue, rfl⟩ := Analysis.reaches_of_result_eq_ok hwf hr hsol
  have hinv := hs.runInv hwf
  have hacc := hs.accounts
  rw [hacc.visitsOf, List.countP_pos_iff] at hb
  obtain ⟨v', hv', hvb'⟩ := hb
  obtain ⟨v, hv⟩ := Option.isSome_iff_exists.1 (isSome_lastVisit? hv')
  rw [of_decide_eq_true hvb'] at hv
  obtain ⟨hmem, rfl⟩ := mem_of_lastVisit?_eq_some hv
  have hblock := hinv.visited_block v hmem
  obtain ⟨values, hnodes⟩ := hinv.visited_nodes v hmem
  have hiff := BlockVisit.seen_pass_eq_iff hwf hblock hreads hnodes s.values
  refine ⟨v, hv, hblock, by rw [hinv.stateBefore?_eq hqueue, hv]; rfl, hiff, fun hkept => ?_⟩
  have houtcomes := NodeVisit.map_outcome_of_map_seen (hiff.2 hkept)
  refine ⟨?_, fun w hw => ?_⟩
  · rw [Solution.outflow?, hacc.after, hv]
    exact congrArg some (Pass.outflow_congr houtcomes.symm _ _)
  · obtain ⟨w', hw', heq⟩ := List.mem_map.1 (houtcomes ▸ List.mem_map_of_mem hw :
      w.outcome ∈ v.nodes.map NodeVisit.outcome)
    simp only [NodeVisit.outcome, Prod.mk.injEq] at heq
    rw [← heq.1, ← heq.2.2]
    exact hs.value?_of_mem hwf hv hw'

/-! ## Constant propagation -/

theorem ConstantChecker.readsOperands (c : ConstantChecker) (g : Graph) :
    c.transfer.ReadsOperands g := by
  intro n _ state values values' hagree
  obtain ⟨id, block, kind⟩ := n
  have hvalue : ∀ o ∈ kind.operands, values.get? o = values'.get? o := hagree
  cases kind with
  | assignment x o =>
    simp only [transfer, Visitor.visit, visitor, NodeInput.valueOrTop, NodeInput.value?,
      hvalue o (by simp [NodeKind.operands])]
  | binary op lhs rhs =>
    simp only [transfer, Visitor.visit, visitor, binary, comparison?, constant?,
      NodeInput.valueOrTop, NodeInput.value?, NodeInput.localName?, NodeInput.node?,
      hvalue lhs (by simp [NodeKind.operands]), hvalue rhs (by simp [NodeKind.operands])]
  | unary op o =>
    simp only [transfer, Visitor.visit, visitor, NodeInput.valueOrTop, NodeInput.value?,
      hvalue o (by simp [NodeKind.operands])]
  | _ => rfl

/-- A loop that reads a variable, sets it, and then tests what it has read. -/
def rereadLoop : List Operation :=
  [.addRegular, .pushNode 3 (.localVariable "x"), .pushNode 3 (.literal (.int 5)),
    .pushNode 3 (.assignment "x" 1), .addConditional, .pushNode 4 (.binary .eq 0 1),
    .connect 0 3, .connect 3 4, .connectBranches 4 1 3]

def rereadLoopGraph : Graph :=
  .ofTables
    #[⟨0, .entry 3⟩, ⟨1, .exit⟩, ⟨2, .exceptionalExit⟩, ⟨3, .regular [0, 1, 2] 4⟩,
      ⟨4, .conditional 3 ⟨1, .eachToEach⟩ ⟨3, .eachToEach⟩⟩]
    #[⟨0, 3, .localVariable "x"⟩, ⟨1, 3, .literal (.int 5)⟩, ⟨2, 3, .assignment "x" 1⟩,
      ⟨3, 4, .binary .eq 0 1⟩]

theorem build_rereadLoop : Graph.build rereadLoop = .ok rereadLoopGraph := rfl

theorem operandsOnPaths_rereadLoop : rereadLoopGraph.OperandsOnPaths := by
  have hpath : rereadLoopGraph.OnEveryPath 3 4 :=
    Graph.onEveryPath_of_closed [entryBlock] (.inr (by decide)) (by decide) (by decide)
  intro n node hn o ho
  match n with
  | 0 | 1 => cases hn; cases ho
  | 2 =>
    cases hn
    obtain rfl := List.mem_singleton.1 ho
    exact ⟨_, rfl, .inl rfl⟩
  | 3 =>
    cases hn
    rcases List.mem_cons.1 ho with rfl | ho
    · exact ⟨_, rfl, .inr hpath⟩
    · obtain rfl := List.mem_singleton.1 ho
      exact ⟨_, rfl, .inr hpath⟩
  | n + 4 => cases hn

/-- Constant propagation with this value of `x` at the entry. -/
def constantsFrom (x : Int64) : Analysis Constant (VarStore Constant) where
  transfer := ConstantChecker.transfer ⟨.ofList [("x", x)]⟩

/-- Where `x` is what the loop sets it to, the test is offered what is recorded. -/
theorem reevaluation_rereadLoop :
    ∃ g r sol v, Graph.build rereadLoop = .ok g ∧ (constantsFrom 5).runFor g 20 = some r ∧
      r.result = .ok sol ∧ 0 < sol.visitsOf 4 ∧
      lastVisit? ((constantsFrom 5).visitsFor g 20) 4 = some v ∧ v.OperandsKept g sol.values ∧
      sol.outflow? 4 = some (Pass.outflow v.block.shape v.entry
        (sol.reevaluate (constantsFrom 5).transfer g v.block v.entry)) ∧
      ∀ w ∈ sol.reevaluate (constantsFrom 5).transfer g v.block v.entry,
        sol.value? w.node.id = some w.result.value := by
  have hsolved : ((constantsFrom 5).solve? rereadLoop 20).any fun found =>
      0 < found.2.visitsOf 4 ∧
        ∀ v ∈ lastVisit? ((constantsFrom 5).visitsFor found.1 20) 4,
          v.OperandsKept found.1 found.2.values := by
    decide +kernel
  obtain ⟨⟨g, sol⟩, hsolve, hfound⟩ := (Option.any_eq_true _ _).1 hsolved
  obtain ⟨hvisits, hkept⟩ := of_decide_eq_true hfound
  obtain ⟨hg, r, hr, hsol⟩ := Analysis.solve?_eq_some hsolve
  obtain ⟨v, hv, -, -, -, h⟩ := reevaluation_of_result_eq_ok hg
    (ConstantChecker.readsOperands _ g) hr hsol hvisits
  exact ⟨g, r, sol, v, hg, hr, hsol, hvisits, hv, hkept v hv, h (hkept v hv)⟩

/-- Where it is not, the solution has the value of the test from before the last visit of the block
that reads `x`. -/
theorem reevaluation_differs :
    ∃ g r sol, Graph.build rereadLoop = .ok g ∧ g.OperandsOnPaths ∧ Lawful (VarStore Constant) ∧
      (constantsFrom 1).transfer.ReadsOperands g ∧
      (constantsFrom 1).config.widening = .never ∧ (constantsFrom 1).runFor g 20 = some r ∧
      r.result = .ok sol ∧
      ∃ b block entry, g.block? b = some block ∧ 0 < sol.visitsOf b ∧
        sol.stateBefore? b = some entry ∧
        ∃ w ∈ sol.reevaluate (constantsFrom 1).transfer g block entry,
          sol.value? w.node.id ≠ some w.result.value := by
  have hsolved : ((constantsFrom 1).solve? rereadLoop 20).any fun found =>
      0 < found.2.visitsOf 4 ∧
        ∃ block ∈ found.1.block? 4, ∃ entry ∈ found.2.stateBefore? 4,
          ∃ w ∈ found.2.reevaluate (constantsFrom 1).transfer found.1 block entry,
            found.2.value? w.node.id ≠ some w.result.value := by
    decide +kernel
  obtain ⟨⟨g, sol⟩, hsolve, hfound⟩ := (Option.any_eq_true _ _).1 hsolved
  obtain ⟨hvisits, block, hblock, entry, hentry, hdiffers⟩ := of_decide_eq_true hfound
  obtain ⟨hg, r, hr, hsol⟩ := Analysis.solve?_eq_some hsolve
  obtain rfl : rereadLoopGraph = g := Except.ok.inj (build_rereadLoop.symm.trans hg)
  exact ⟨_, r, sol, hg, operandsOnPaths_rereadLoop, VarStore.lawful Flat.lawful,
    ConstantChecker.readsOperands _ _, rfl, hr, hsol, 4, block, entry, hblock, hvisits, hentry,
    hdiffers⟩

end Dataflow
