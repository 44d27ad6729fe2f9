import Dataflow.Proofs.LivePart
import Mathlib.Data.List.Chain

/-!
# Last visits

A visit writes node states and values while it goes on, and the outflow once it is over. The state
at the entry of its block is written by others, and by the visit itself if the block is its own
successor. A block whose state changes waits again, so that the tables of a run that has come to
rest tell of one visit of every block, the last one (`describes_last_visits`).
-/

namespace Dataflow

variable {V S : Type}

/-! ## From node to node -/

section Pass

variable [DecidableEq S] [AbstractDomain S] (t : Transfer V S) (nodes : Array Node)

theorem state_of_mem_head?_pass {values : Table V} {state : S} {ns : List Node}
    {w : NodeVisit V S} (hw : w ∈ (t.pass nodes values state ns).head?) : w.state = state := by
  cases ns with
  | nil => cases hw
  | cons n rest =>
    rw [pass_cons, List.head?_cons, Option.mem_some_iff] at hw
    exact hw ▸ rfl

/-- A pass visits every node but the first from what the node before it came to. -/
theorem isChain_pass : ∀ (ns : List Node) (values : Table V) (state : S),
    (t.pass nodes values state ns).IsChain fun w w' => w'.state = w.result.outflow.joined
  | [], _, _ => .nil
  | _ :: rest, _, _ => by
    rw [pass_cons, List.isChain_cons]
    exact ⟨fun _ hw => state_of_mem_head?_pass t nodes hw, isChain_pass rest _ _⟩

end Pass

/-! ## The tables of a run -/

/-- The states before nodes that these visits leave, the latest one of every node. -/
def nodeStatesOf (visits : List (BlockVisit V S)) : Table S :=
  (visits.flatMap (·.nodes)).foldl (fun states w => states.insert w.node.id w.state) .empty

theorem nodeStatesOf_concat (visits : List (BlockVisit V S)) (v : BlockVisit V S) :
    nodeStatesOf (visits ++ [v]) =
      v.nodes.foldl (fun states w => states.insert w.node.id w.state) (nodeStatesOf visits) := by
  rw [nodeStatesOf, List.flatMap_append, List.flatMap_singleton, List.foldl_append, nodeStatesOf]

namespace Solution

variable [DecidableEq S] [AbstractDomain S]

/-- The solution tells of one visit of a block, from this state and with these visits of its nodes:
in the log of the run they are the last visits of the nodes. -/
structure Describes (sol : Solution V S) (log : List (NodeVisit V S)) (t : Transfer V S) (g : Graph)
    (block : Block) (entry : S) (visits : List (NodeVisit V S)) : Prop where
  before : sol.stateBefore? block.id = some entry
  nodes : visits.map (·.node) = g.nodesOf block
  last : ∀ w ∈ visits, lastNodeVisit? log w.node.id = some w
  result : ∀ w ∈ visits, ∃ values, w.result = t.visit ⟨w.node, g.nodes, w.state, values⟩
  state : ∀ w ∈ visits, sol.stateBeforeNode? w.node.id = some w.state
  value : ∀ w ∈ visits, sol.value? w.node.id = some w.result.value
  first : ∀ w ∈ visits.head?, sol.stateBeforeNode? w.node.id = some entry
  next : visits.IsChain fun w w' =>
    sol.stateBeforeNode? w'.node.id = some w.result.outflow.joined
  single : block.kind ≠ .conditional →
    sol.outflow? block.id =
      some (.single ((visits.getLast?.map (·.result.outflow.joined)).getD entry))
  split : block.kind = .conditional → ∃ w, visits = [w] ∧
    sol.outflow? block.id = some (.split w.result.outflow.thenState w.result.outflow.elseState)

end Solution

section Outflow

variable [DecidableEq S] [AbstractDomain S] {v : BlockVisit V S}

theorem BlockVisit.outflow_of_ne_conditional (h : v.block.kind ≠ .conditional) :
    v.outflow = .single ((v.nodes.getLast?.map (·.result.outflow.joined)).getD v.entry) := by
  have hfinal : Pass.finalState v.entry v.nodes =
      (v.nodes.getLast?.map (·.result.outflow.joined)).getD v.entry := by
    unfold Pass.finalState
    cases v.nodes.getLast? <;> rfl
  rw [← hfinal]
  obtain ⟨⟨id, shape⟩, entry, nodes⟩ := v
  cases shape with
  | conditional => exact absurd rfl h
  | _ => rfl

theorem BlockVisit.outflow_of_nodes_eq_singleton (h : v.block.kind = .conditional)
    {w : NodeVisit V S} (hw : v.nodes = [w]) :
    v.outflow = .split w.result.outflow.thenState w.result.outflow.elseState := by
  obtain ⟨⟨id, shape⟩, entry, nodes⟩ := v
  obtain rfl : nodes = [w] := hw
  cases shape with
  | conditional => rfl
  | _ => cases h

end Outflow

namespace Analysis

variable [DecidableEq S] [AbstractDomain S] {a : Analysis V S} {g : Graph}
  {visits : List (BlockVisit V S)} {s : RunState V S}

theorem Reaches.nodeStates_eq (hrecord : a.config.recordNodeStores = true)
    (h : a.Reaches g visits s) : s.nodeStates = nodeStatesOf visits := by
  have hnodeStates : ∀ s s' : RunState V S, s'.findings = s.findings →
      s'.nodeStates = s.nodeStates := fun _ _ hfindings => congrArg (·.2.2.1) hfindings
  refine Reaches.induction (P := fun visits s => s.nodeStates = nodeStatesOf visits) rfl
    (fun _ h => h) (fun source target state _ h => ?_) (fun {visits s v} _ h => ?_)
    (fun b h => ?_) h
  · rw [hnodeStates _ _ (RunState.findings_receive _ _ _ _ _ _), h]
  · rw [nodeStatesOf_concat, ← h]
    simp only [RunState.opened, hrecord, if_true]
  · rw [hnodeStates _ _ (RunState.findings_closed _ b), h]

theorem Reaches.stateBeforeNode?_eq (hrecord : a.config.recordNodeStores = true)
    (h : a.Reaches g visits s) (n : NodeId) :
    s.stateBeforeNode? n = (lastNodeVisit? (visits.flatMap (·.nodes)) n).map (·.state) := by
  rw [Solution.stateBeforeNode?, h.nodeStates_eq hrecord, nodeStatesOf, get?_foldl_insert,
    Table.get?_empty, Option.or_none]

theorem Reaches.value?_eq (h : a.Reaches g visits s) (n : NodeId) :
    s.value? n = (lastNodeVisit? (visits.flatMap (·.nodes)) n).map (·.result.value) := by
  rw [Solution.value?, h.accounts.values, get?_valuesOf_eq]

variable (hg : g.WellFormed)

include hg

theorem Reaches.lastNodeVisit?_of_mem (h : a.Reaches g visits s) {v : BlockVisit V S}
    (hv : lastVisit? visits v.block.id = some v) {w : NodeVisit V S} (hw : w ∈ v.nodes) :
    lastNodeVisit? (visits.flatMap (·.nodes)) w.node.id = some w := by
  have hinv := h.runInv hg
  have hmem := (mem_of_lastVisit?_eq_some hv).1
  have hblock := hinv.visited_block v hmem
  have hnodup := v.nodup_ids hg hblock (hinv.nodes_eq hmem)
  obtain ⟨hnode, hb⟩ :=
    (hg.mem_nodesOf_iff hblock).1 (hinv.nodes_eq hmem ▸ List.mem_map_of_mem hw)
  rw [lastNodeVisit?_flatMap_nodes hg _ _ hinv.visited_block fun v hv => hinv.nodes_eq hv, hnode,
    Option.bind_some, hb, hv, Option.bind_some, ← lastNodeVisit?_eq_find? hnodup,
    Dataflow.lastNodeVisit?_of_mem hnodup hw]

/-- When nothing waits, the tables tell of the last visit of every visited block. -/
theorem Reaches.describes (hrecord : a.config.recordNodeStores = true) (h : a.Reaches g visits s)
    (hqueue : s.queue = []) {v : BlockVisit V S} (hv : lastVisit? visits v.block.id = some v) :
    s.Describes (visits.flatMap (·.nodes)) a.transfer g v.block v.entry v.nodes := by
  have hinv := h.runInv hg
  have hmem := (mem_of_lastVisit?_eq_some hv).1
  obtain ⟨values, hpass⟩ := hinv.visited_nodes v hmem
  have hlast : ∀ w ∈ v.nodes, lastNodeVisit? (visits.flatMap (·.nodes)) w.node.id = some w :=
    fun w hw => h.lastNodeVisit?_of_mem hg hv hw
  have hstate : ∀ w ∈ v.nodes, s.stateBeforeNode? w.node.id = some w.state := fun w hw => by
    rw [h.stateBeforeNode?_eq hrecord, hlast w hw, Option.map_some]
  have hchain : v.nodes.IsChain fun w w' => w'.state = w.result.outflow.joined :=
    hpass ▸ isChain_pass a.transfer g.nodes _ _ _
  have houtflow : s.outflow? v.block.id = some v.outflow := by
    rw [Solution.outflow?, h.accounts.after, hv, Option.map_some]
  refine
    { before := by rw [hinv.stateBefore?_eq hqueue, hv, Option.map_some]
      nodes := hinv.nodes_eq hmem
      last := hlast
      result := fun w hw => ?_
      state := hstate
      value := fun w hw => by rw [h.value?_eq, hlast w hw, Option.map_some]
      first := fun w hw => ?_
      next := ?_
      single := fun hkind => by rw [houtflow, BlockVisit.outflow_of_ne_conditional hkind]
      split := fun hkind => ?_ }
  · obtain ⟨values', hw'⟩ := exists_eq_visitNode_of_mem_pass a.transfer (hpass ▸ hw)
    exact ⟨values', congrArg NodeVisit.result hw'⟩
  · rw [hstate w (List.mem_of_mem_head? hw)]
    exact congrArg some (state_of_mem_head?_pass a.transfer g.nodes (hpass ▸ hw))
  · refine List.IsChain.imp_of_mem_imp ?_ hchain
    intro w w' _ hw' hnext
    rw [hstate w' hw', hnext]
  · obtain ⟨n, hn⟩ := hg.exists_nodesOf_eq_singleton (hinv.visited_block v hmem) hkind
    obtain ⟨w, hw, -⟩ := List.map_eq_singleton_iff.1 ((hinv.nodes_eq hmem).trans hn)
    exact ⟨w, hw, by rw [houtflow, BlockVisit.outflow_of_nodes_eq_singleton hkind hw]⟩

/-- A node of a block that has not been visited is in none of the tables. -/
theorem Reaches.lastNodeVisit?_eq_none (h : a.Reaches g visits s) {n : NodeId} {node : Node}
    (hn : g.node? n = some node) (hnode : s.visitsOf node.block = 0) :
    lastNodeVisit? (visits.flatMap (·.nodes)) n = none := by
  have hinv := h.runInv hg
  have hunvisited : lastVisit? visits node.block = none := by
    rw [← Option.not_isSome_iff_eq_none, isSome_lastVisit?_iff, ← h.accounts.visitsOf, hnode]
    exact Nat.lt_irrefl 0
  rw [lastNodeVisit?_flatMap_nodes hg n _ hinv.visited_block fun v hv => hinv.nodes_eq hv, hn,
    Option.bind_some, hunvisited, Option.bind_none]

end Analysis

variable [DecidableEq S] [AbstractDomain S]

/-- Where a run that records node states finds a solution, its tables tell of the last visit of
every visited block, and of no node of any other block. -/
theorem describes_last_visits {operations : List Operation} {g : Graph}
    (hbuild : Graph.build operations = .ok g) {a : Analysis V S}
    (hrecord : a.config.recordNodeStores = true) {fuel : Nat} {r : Run V S} {sol : Solution V S}
    (hr : a.runFor g fuel = some r) (hsol : r.result = .ok sol) :
    (∀ b, 0 < sol.visitsOf b → ∃ block entry visits, g.block? b = some block ∧
      sol.Describes r.state.log.toList a.transfer g block entry visits) ∧
    ∀ n node, g.node? n = some node → sol.visitsOf node.block = 0 →
      sol.value? n = none ∧ sol.stateBeforeNode? n = none := by
  have hg := wellFormed_of_build hbuild
  obtain ⟨s, hs, hqueue, rfl⟩ := Analysis.finished_of_result_eq_ok hg hr hsol
  obtain rfl : s.toSolution = sol := Except.ok.inj hsol
  refine ⟨fun b hb => ?_, fun n node hn hnode => ?_⟩
  · rw [hs.accounts.visitsOf, ← isSome_lastVisit?_iff] at hb
    obtain ⟨v, hv⟩ := Option.isSome_iff_exists.1 hb
    obtain ⟨hmem, rfl⟩ := mem_of_lastVisit?_eq_some hv
    refine ⟨v.block, v.entry, v.nodes, (hs.runInv hg).visited_block v hmem, ?_⟩
    have hlog : s.log.toList = (a.visitsFor g fuel).flatMap (·.nodes) := by rw [hs.accounts.log]
    exact hlog ▸ hs.describes hg hrecord hqueue hv
  · have hnone := hs.lastNodeVisit?_eq_none hg hn hnode
    exact ⟨by rw [hs.value?_eq, hnone, Option.map_none],
      by rw [hs.stateBeforeNode?_eq hrecord, hnone, Option.map_none]⟩

/-- The loop is visited twice, and the tables tell of the second visit only; of the silenced branch
they tell nothing. -/
theorem describes_last_visits_silencedBranch :
    let a : Analysis (Flat Int64) Tags :=
      { transfer := TagChecker.transfer {}, config := { recordNodeStores := true } }
    ∃ g r sol, Graph.build silencedBranch = .ok g ∧ a.config.recordNodeStores = true ∧
      a.runFor g 30 = some r ∧ r.result = .ok sol ∧
      (sol.visitsOf 3 = 2 ∧ sol.visitsOf 4 = 2 ∧ sol.visitsOf 5 = 0) ∧
      (∀ b, 0 < sol.visitsOf b → ∃ block entry visits, g.block? b = some block ∧
        sol.Describes r.state.log.toList a.transfer g block entry visits) ∧
      ∀ n node, g.node? n = some node → sol.visitsOf node.block = 0 →
        sol.value? n = none ∧ sol.stateBeforeNode? n = none := by
  intro a
  have hsolved : (a.solve? silencedBranch 30).any fun (_, sol) =>
      sol.visitsOf 3 = 2 ∧ sol.visitsOf 4 = 2 ∧ sol.visitsOf 5 = 0 := by
    decide +kernel
  obtain ⟨⟨g, sol⟩, hsolve, hvisits⟩ := (Option.any_eq_true _ _).1 hsolved
  obtain ⟨hg, r, hr, hsol⟩ := Analysis.solve?_eq_some hsolve
  exact ⟨g, r, sol, hg, rfl, hr, hsol, of_decide_eq_true hvisits,
    describes_last_visits hg rfl hr hsol⟩

end Dataflow
