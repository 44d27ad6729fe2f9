import Dataflow.Proofs.Edge
import Dataflow.Proofs.Paths

/-!
# Consistency of built graphs

The tables of a built graph agree with each other (`Graph.Consistent`): nodes and blocks name each
other, every node stands in one block once, the loop that gathers predecessors finds the converse
of the successors (`Graph.WellFormed.predecessors_eq`), and these are the targets of what the blocks
send. And they say what the operations said (`consistent_of_build`), however these came to it.
-/

namespace Dataflow

/-- The block as it is if its branches are given no rules. -/
def BlockShape.withoutRules : BlockShape → BlockShape
  | .conditional condition thenEdge elseEdge =>
    .conditional condition ⟨thenEdge.target, .eachToEach⟩ ⟨elseEdge.target, .eachToEach⟩
  | shape => shape

namespace BlockShape

variable {shape : BlockShape}

theorem targets_eq_map_edges (shape : BlockShape) : shape.targets = shape.edges.map (·.2) := by
  cases shape with
  | exceptional nodes next handlers =>
    simp [targets, edges, ExceptionMap.values, Function.comp_def]
  | _ => rfl

theorem edges_withoutRules (shape : BlockShape) : shape.withoutRules.edges = shape.edges := by
  cases shape <;> rfl

theorem carries_withoutRules {e : Edge} {target : BlockId} (h : (e, target) ∈ shape.edges) :
    shape.withoutRules.carries e := by
  cases e with
  | branch branch =>
    obtain ⟨condition, thenEdge, elseEdge, rfl⟩ := eq_conditional_of_branch_mem_edges h
    cases branch <;> rfl
  | normal | handler => rfl

variable {V S : Type} [DecidableEq S] [AbstractDomain S] (entry : S) (visits : List (NodeVisit V S))
  {target : BlockId}

/-- Without rules, a pass over a block sends a state to each of its targets. -/
theorem mem_targets_iff_sent : target ∈ shape.targets ↔
    ∃ state, ∃ sending ∈ Sending.all shape.withoutRules entry visits,
      sending.carried? = some (target, state) := by
  simp only [Sending.mem_carried_all_iff, edges_withoutRules, targets_eq_map_edges, List.mem_map]
  constructor
  · rintro ⟨⟨e, target⟩, hmem, rfl⟩
    have hsome : (Pass.sent shape.withoutRules entry visits e).isSome := by
      rw [Pass.isSome_sent]
      exact carries_withoutRules hmem
    obtain ⟨state, hstate⟩ := Option.isSome_iff_exists.1 hsome
    exact ⟨state, e, hmem, hstate⟩
  · rintro ⟨state, e, hmem, -⟩
    exact ⟨(e, target), hmem, rfl⟩

end BlockShape

/-- Only the first three blocks are special. -/
theorem Script.getElem?_kinds_special (operations : List Operation) (b : BlockId)
    (k : SpecialKind) : (kinds operations)[b]? = some (.special k) ↔
      [SpecialKind.entry, .exit, .exceptionalExit][b]? = some k := by
  have hadded : ∀ kind ∈ operations.filterMap Operation.addedKind?, kind ≠ .special k := by
    intro kind hkind heq
    obtain ⟨operation, -, hoperation⟩ := List.mem_filterMap.1 hkind
    subst heq
    cases operation <;> simp [Operation.addedKind?] at hoperation
  rcases b with _ | _ | _ | b
  case succ.succ.succ =>
    simp only [kinds, List.cons_append, List.nil_append, List.getElem?_cons_succ]
    exact ⟨fun h => absurd rfl (hadded _ (List.mem_of_getElem? h)), fun h => by simp at h⟩
  all_goals simp [kinds]

/-! ## The loop that gathers predecessors -/

theorem getElem?_foldl_modify {α : Type} (a : α) (s : Nat) {targets : List Nat}
    {lists : Array (List α)} (h : targets.Nodup) :
    (targets.foldl (fun lists t => lists.modify t (· ++ [a])) lists)[s]? =
      lists[s]?.map fun list => if s ∈ targets then list ++ [a] else list := by
  induction targets generalizing lists with
  | nil => simp
  | cons t rest ih =>
    obtain ⟨hfresh, hrest⟩ := List.nodup_cons.1 h
    rw [List.foldl_cons, ih hrest, Array.getElem?_modify]
    by_cases hs : t = s
    · subst hs
      simp [hfresh, Function.comp_def]
    · simp [hs, Ne.symm hs]

/-- A turn of the loop pushes the block onto the lists of its successors, once onto each. -/
theorem getElem?_addPredecessor (lists : Array (List BlockId)) (block : Block) (s : BlockId) :
    (addPredecessor lists block)[s]? =
      lists[s]?.map fun list => if s ∈ block.successors then list ++ [block.id] else list :=
  getElem?_foldl_modify block.id s (nodup_firstOccurrences _)

/-- The whole loop pushes the blocks that have `s` among their successors onto the list of `s`, in
their order. -/
theorem getElem?_foldl_addPredecessor (s : BlockId) (blocks : List Block)
    (lists : Array (List BlockId)) :
    (blocks.foldl addPredecessor lists)[s]? =
      lists[s]?.map (· ++ (blocks.filter fun block => s ∈ block.successors).map Block.id) := by
  induction blocks generalizing lists with
  | nil => simp
  | cons block rest ih =>
    rw [List.foldl_cons, ih, getElem?_addPredecessor, Option.map_map]
    refine congrArg (lists[s]?.map ·) (funext fun list => ?_)
    by_cases hs : s ∈ block.successors <;> simp [hs]

/-! ## Consistent graphs -/

namespace Graph

variable {g : Graph} {operations : List Operation}

/-- The tables of a graph agree with each other. -/
structure Consistent (g : Graph) : Prop extends WellFormed g where
  special : ∀ b, (g.block? b).bind Block.special? =
    [SpecialKind.entry, .exit, .exceptionalExit][b]?
  /-- Every node stands in one block, once. -/
  nodes_once : (g.blocks.toList.flatMap Block.nodes).Perm (List.range g.nodes.size)
  nodup_successors : ∀ b, (g.successors b).Nodup
  successors_lt : ∀ {b s}, s ∈ g.successors b → s < g.blocks.size
  /-- The successors are where a visit sends states, whatever the flow rules let through. -/
  successors_sent : ∀ {V S : Type} [DecidableEq S] [AbstractDomain S] {b : BlockId} {block : Block},
    g.block? b = some block → ∀ (entry : S) (visits : List (NodeVisit V S)) (target : BlockId),
      target ∈ g.successors b ↔
        ∃ state, ∃ sending ∈ Sending.all block.shape.withoutRules entry visits,
          sending.carried? = some (target, state)
  sent_successors : ∀ {V S : Type} [DecidableEq S] [AbstractDomain S] {b : BlockId} {block : Block},
    g.block? b = some block → ∀ (entry : S) (visits : List (NodeVisit V S)),
      ∀ sending ∈ Sending.all block.shape entry visits, ∀ target state,
        sending.carried? = some (target, state) → target ∈ g.successors b
  mem_predecessors_iff : ∀ {p s}, p ∈ g.predecessors s ↔ s ∈ g.successors p
  predecessors_ascending : ∀ s, (g.predecessors s).Pairwise (· < ·)

theorem nodup_successors (b : BlockId) : (g.successors b).Nodup := by
  unfold successors blockSuccessors
  cases g.blocks[b]? with
  | none => exact List.nodup_nil
  | some block => exact nodup_firstOccurrences _

theorem WellFormed.map_id_blocks (h : g.WellFormed) :
    g.blocks.toList.map Block.id = g.blockIds := by
  refine List.ext_getElem (by simp [blockIds]) fun b hb _ => ?_
  simp only [blockIds, List.getElem_map, Array.getElem_toList, List.getElem_range]
  exact h.block_id (Array.getElem?_eq_getElem (by simpa using hb))

theorem WellFormed.block?_id (h : g.WellFormed) {block : Block}
    (hmem : block ∈ g.blocks.toList) : g.block? block.id = some block := by
  obtain ⟨b, hb⟩ := List.getElem?_of_mem hmem
  rw [Array.getElem?_toList] at hb
  rw [h.block_id hb]
  exact hb

theorem WellFormed.successors_id (h : g.WellFormed) {block : Block}
    (hmem : block ∈ g.blocks.toList) : g.successors block.id = block.successors := by
  have hb : g.blocks[block.id]? = some block := h.block?_id hmem
  rw [successors, blockSuccessors, hb]
  rfl

/-- The loop finds, for each block, the blocks with an edge to it, by increasing number. -/
theorem WellFormed.predecessors_eq (h : g.WellFormed) (s : BlockId) :
    g.predecessors s = g.blockIds.filter fun p => s ∈ g.successors p := by
  have hsuccessors : ∀ block ∈ g.blocks.toList,
      decide (s ∈ g.successors block.id) = decide (s ∈ block.successors) := fun block hmem => by
    rw [h.successors_id hmem]
  have hfilter : (g.blockIds.filter fun p => s ∈ g.successors p) =
      (g.blocks.toList.filter fun block => s ∈ block.successors).map Block.id := by
    rw [← h.map_id_blocks, List.filter_map, Function.comp_def, List.filter_congr hsuccessors]
  rw [hfilter, predecessors, predecessorLists, ← Array.foldl_toList,
    getElem?_foldl_addPredecessor, Array.getElem?_replicate]
  by_cases hs : s < g.blocks.size
  · simp [hs]
  · -- there is no list for `s`, but no edge leads out of the graph
    have hnone : ∀ block ∈ g.blocks.toList, s ∉ block.successors := fun block hmem hs' =>
      hs (h.successors_lt (h.successors_id hmem ▸ hs'))
    simpa [hs] using hnone

theorem WellFormed.mem_predecessors_iff (h : g.WellFormed) {p s : BlockId} :
    p ∈ g.predecessors s ↔ s ∈ g.successors p := by
  simpa [h.predecessors_eq, blockIds] using lt_of_mem_successors

theorem WellFormed.pairwise_predecessors (h : g.WellFormed) (s : BlockId) :
    (g.predecessors s).Pairwise (· < ·) := by
  rw [h.predecessors_eq]
  exact List.pairwise_lt_range.filter _

theorem WellFormed.perm_nodes (h : g.WellFormed) :
    (g.blocks.toList.flatMap Block.nodes).Perm (List.range g.nodes.size) := by
  have hblock : ∀ {i} (hi : i < g.blocks.toList.length), g.block? i = some g.blocks.toList[i] :=
    fun hi => by simp [block?]
  refine (List.perm_ext_iff_of_nodup ?_ List.nodup_range).2 fun n => ?_
  · rw [List.nodup_iff_pairwise_ne, List.pairwise_flatMap, List.pairwise_iff_getElem]
    constructor
    · intro block hmem
      exact (h.nodes_ascending (h.block?_id hmem)).imp Nat.ne_of_lt
    · intro i j hi hj hlt n hni m hnj heq
      subst heq
      obtain ⟨node, hnode, hni'⟩ := h.node_block (hblock hi) n hni
      obtain ⟨node', hnode', hnj'⟩ := h.node_block (hblock hj) n hnj
      obtain rfl : node = node' := Option.some.inj (hnode.symm.trans hnode')
      exact absurd (hni'.symm.trans hnj') (Nat.ne_of_lt hlt)
  · rw [List.mem_flatMap, List.mem_range]
    constructor
    · rintro ⟨block, hmem, hn⟩
      obtain ⟨node, hnode, -⟩ := h.node_block (h.block?_id hmem) n hn
      exact (Array.getElem?_eq_some_iff.1 hnode).1
    · intro hn
      obtain ⟨block, hb, hmem⟩ := h.mem_nodes (Array.getElem?_eq_getElem hn)
      exact ⟨block, Array.mem_toList_iff.2 (Array.mem_of_getElem? hb), hmem⟩

theorem SaidBy.special (h : g.SaidBy operations) (b : BlockId) :
    (g.block? b).bind Block.special? = [SpecialKind.entry, .exit, .exceptionalExit][b]? := by
  have hkind : (g.block? b).map Block.kind = (Script.kinds operations)[b]? := by
    rw [← h.kinds, List.getElem?_map, Array.getElem?_toList]
    rfl
  refine Option.ext fun k => ?_
  rw [← Script.getElem?_kinds_special operations b k, ← hkind, Option.map_eq_some_iff,
    Option.bind_eq_some_iff]
  refine exists_congr fun block => and_congr_right fun _ => ?_
  unfold Block.special?
  cases block.kind <;> simp

theorem WellFormed.consistent (h : g.WellFormed)
    (hspecial : ∀ b, (g.block? b).bind Block.special? =
      [SpecialKind.entry, .exit, .exceptionalExit][b]?) : g.Consistent where
  toWellFormed := h
  special := hspecial
  nodes_once := h.perm_nodes
  nodup_successors := nodup_successors
  successors_lt := h.successors_lt
  successors_sent := fun hb entry visits target => by
    rw [mem_successors_iff hb, BlockShape.mem_targets_iff_sent entry visits]
  sent_successors := fun hb entry visits sending hmem target state hcarried => by
    obtain ⟨e, he, -⟩ := Sending.mem_carried_all_iff.1 ⟨sending, hmem, hcarried⟩
    exact (mem_successors_iff hb).2 (BlockShape.target_mem_targets he)
  mem_predecessors_iff := h.mem_predecessors_iff
  predecessors_ascending := h.pairwise_predecessors

/-- A built graph is consistent, and its blocks and nodes, with their edges, rules and handlers, are
what the operations say, by what was written last. -/
theorem consistent_of_build {operations : List Operation} {g : Graph}
    (h : Graph.build operations = .ok g) : g.Consistent ∧ g.SaidBy operations :=
  ⟨(wellFormed_of_build h).consistent (saidBy_of_build h).special, saidBy_of_build h⟩

/-- Edges lead to blocks that are added later and are written anew; of the handlers, one is bound
anew and leads where the normal edge does, and one leads back to its block. -/
def rewired : List Operation :=
  [.connect 0 9, .addRegular, .connect 3 4, .addConditional, .pushNode 4 (.localVariable "x"),
    .setRule 4 .thenBranch .bothToThen, .connectBranches 4 1 1, .addExceptional,
    .pushNode 5 (.invocation "next" none []), .pushNode 3 (.marker "head"),
    .pushNode 5 (.assignment "x" 1), .connectBranches 4 5 1, .setRule 4 .thenBranch .thenToBoth,
    .addHandler 5 "E" 2, .addHandler 5 "F" 5, .addHandler 5 "E" 3, .connect 5 3, .connect 0 3]

def rewiredGraph : Graph :=
  .ofTables
    #[⟨0, .entry 3⟩, ⟨1, .exit⟩, ⟨2, .exceptionalExit⟩, ⟨3, .regular [2] 4⟩,
      ⟨4, .conditional 0 ⟨5, .thenToBoth⟩ ⟨1, .eachToEach⟩⟩,
      ⟨5, .exceptional [1, 3] 3 ⟨[("E", 3), ("F", 5)], by decide⟩⟩]
    #[⟨0, 4, .localVariable "x"⟩, ⟨1, 5, .invocation "next" none []⟩, ⟨2, 3, .marker "head"⟩,
      ⟨3, 5, .assignment "x" 1⟩]

theorem build_rewired : Graph.build rewired = .ok rewiredGraph := rfl

theorem consistent_rewired :
    Graph.build rewired = .ok rewiredGraph ∧ rewiredGraph.Consistent ∧
      rewiredGraph.SaidBy rewired ∧ rewiredGraph.successors 5 = [3, 5] ∧
      rewiredGraph.predecessors 3 = [0, 5] ∧
      Script.branchTargets? rewired 4 = some (5, 1) ∧
      Script.handledTypes rewired 5 = ["E", "F"] := by
  obtain ⟨hconsistent, hsaid⟩ := consistent_of_build build_rewired
  exact ⟨build_rewired, hconsistent, hsaid, by decide, by decide, by decide, by decide⟩

end Graph

end Dataflow
