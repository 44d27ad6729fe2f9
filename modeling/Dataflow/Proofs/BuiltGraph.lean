import Dataflow.Proofs.Drafts
import Mathlib.Data.List.Forall2

/-!
# Built graphs

A graph holds the drafts of its builder, finished as they are (`Builder.build_eq_ok`). So it holds
what its operations say (`saidBy_of_build`), and it is well formed (`wellFormed_of_build`): blocks
and nodes are found at their numbers, edges stay inside the graph, and operands are earlier nodes.
-/

namespace Dataflow

theorem forall₂_of_mapM_eq_ok {α β ε : Type} {f : α → Except ε β} :
    ∀ {l : List α} {r : List β}, l.mapM f = .ok r → List.Forall₂ (fun a b => f a = .ok b) l r
  | [], r, h => by
    simp only [List.mapM_nil] at h
    cases h
    exact .nil
  | a :: l, r, h => by
    rw [List.mapM_cons] at h
    obtain ⟨b, hb, hrest⟩ := bind_eq_ok h
    obtain ⟨bs, hbs, heq⟩ := bind_eq_ok hrest
    cases heq
    exact .cons hb (forall₂_of_mapM_eq_ok hbs)

namespace Builder

variable {b : Builder}

theorem finishedBlocks_eq_ok {blocks : List Block} (h : b.finishedBlocks = .ok blocks) :
    List.Forall₂ (fun (draft, id) block => draft.finish b.drafts.size id = .ok block.shape ∧
      block.id = id) b.drafts.toList.zipIdx blocks := by
  refine (forall₂_of_mapM_eq_ok h).imp fun ⟨draft, id⟩ block hblock => ?_
  obtain ⟨shape, hshape, heq⟩ := bind_eq_ok hblock
  cases heq
  exact ⟨hshape, rfl⟩

/-- The blocks of a built graph are the drafts, all of whose edges are there and stay inside. -/
theorem build_eq_ok {g : Graph} (h : b.build = .ok g) :
    b.error = none ∧ b.firstOperandFault? = none ∧ g.nodes = b.nodes ∧
      g.blocks.size = b.drafts.size ∧
      ∀ (i : BlockId) (block : Block), g.block? i = some block → block.id = i ∧
        b.drafts[i]? = some block.shape.draft ∧ ∀ t ∈ block.shape.targets, t < g.blocks.size := by
  unfold Builder.build at h
  split at h
  · cases h
  rename_i hnone
  obtain ⟨blocks, hblocks, heq⟩ := bind_eq_ok h
  cases heq
  rw [Option.or_eq_none_iff] at hnone
  have hall := finishedBlocks_eq_ok hblocks
  have hsize : blocks.length = b.drafts.size := by simpa using hall.length_eq.symm
  refine ⟨hnone.1, hnone.2, rfl, by simpa [Graph.ofTables] using hsize, fun i block hi => ?_⟩
  have hi' : blocks[i]? = some block := by simpa [Graph.block?, Graph.ofTables] using hi
  obtain ⟨hlt, rfl⟩ := List.getElem?_eq_some_iff.1 hi'
  have hlt' : i < b.drafts.size := hsize ▸ hlt
  have hfinish := hall.get (by simpa using hlt') hlt
  simp only [List.get_eq_getElem, List.getElem_zipIdx, Nat.zero_add, Array.getElem_toList] at hfinish
  obtain ⟨hdraft, htargets⟩ := Draft.finish_eq_ok hfinish.1
  refine ⟨hfinish.2, by rw [Array.getElem?_eq_getElem hlt', hdraft], fun t ht => ?_⟩
  simpa [Graph.ofTables, hsize] using htargets t ht

end Builder

namespace Graph

/-- What every built graph keeps. -/
structure WellFormed (g : Graph) : Prop where
  block_id : ∀ {b block}, g.block? b = some block → block.id = b
  node_id : ∀ {n node}, g.node? n = some node → node.id = n
  target_lt : ∀ {b block}, g.block? b = some block →
    ∀ target ∈ block.shape.targets, target < g.blocks.size
  entry_lt : entryBlock < g.blocks.size
  node_block : ∀ {b block}, g.block? b = some block →
    ∀ n ∈ block.nodes, ∃ node, g.node? n = some node ∧ node.block = b
  nodes_ascending : ∀ {b block}, g.block? b = some block → block.nodes.Pairwise (· < ·)
  mem_nodes : ∀ {n node}, g.node? n = some node →
    ∃ block, g.block? node.block = some block ∧ n ∈ block.nodes
  operand_lt : ∀ {n node}, g.node? n = some node → ∀ o ∈ node.kind.operands, o < n

namespace WellFormed

variable {g : Graph} (h : g.WellFormed) {b : BlockId} {block : Block}
  (hb : g.block? b = some block)

include h hb

theorem mem_nodesOf_iff {n : Node} :
    n ∈ g.nodesOf block ↔ g.node? n.id = some n ∧ n.block = b := by
  rw [nodesOf, List.mem_filterMap]
  constructor
  · rintro ⟨i, hi, hn⟩
    obtain ⟨n', hn', hblock⟩ := h.node_block hb i hi
    obtain rfl : n' = n := Option.some.inj (hn'.symm.trans hn)
    exact ⟨by rwa [h.node_id hn], hblock⟩
  · rintro ⟨hn, hblock⟩
    obtain ⟨block', hb', hmem⟩ := h.mem_nodes hn
    rw [hblock, hb] at hb'
    obtain rfl : block = block' := Option.some.inj hb'
    exact ⟨n.id, hmem, hn⟩

theorem map_id_nodesOf : (g.nodesOf block).map Node.id = block.nodes := by
  have hall : ∀ ids : List NodeId, (∀ i ∈ ids, i ∈ block.nodes) →
      (ids.filterMap g.node?).map Node.id = ids := by
    intro ids
    induction ids with
    | nil => exact fun _ => rfl
    | cons i rest ih =>
      intro hids
      obtain ⟨n, hn, -⟩ := h.node_block hb i (hids i List.mem_cons_self)
      rw [List.filterMap_cons_some hn, List.map_cons, h.node_id hn,
        ih fun j hj => hids j (List.mem_cons_of_mem _ hj)]
  exact hall block.nodes fun _ hi => hi

theorem nodup_map_id_nodesOf : ((g.nodesOf block).map Node.id).Nodup := by
  rw [h.map_id_nodesOf hb]
  exact (h.nodes_ascending hb).imp Nat.ne_of_lt

theorem exists_nodesOf_eq_singleton (hkind : block.kind = .conditional) :
    ∃ n, g.nodesOf block = [n] := by
  have hids := h.map_id_nodesOf hb
  obtain ⟨id, shape⟩ := block
  cases shape with
  | conditional condition thenEdge elseEdge =>
    obtain ⟨n, hn, -⟩ := List.map_eq_singleton_iff.1 hids
    exact ⟨n, hn⟩
  | _ => cases hkind

/-- An operand from the same block is among the nodes before. -/
theorem operand_mem_of_append {pre post : List Node} {n m : Node} {o : NodeId}
    (heq : g.nodesOf block = pre ++ n :: post) (ho : o ∈ n.kind.operands)
    (hm : g.node? o = some m) (hmb : m.block = n.block) : o ∈ pre.map Node.id := by
  have hn := (h.mem_nodesOf_iff hb (n := n)).1 (by simp [heq])
  have hlt : o < n.id := h.operand_lt hn.1 o ho
  have hid : m.id = o := h.node_id hm
  have hmem : o ∈ block.nodes := by
    rw [← h.map_id_nodesOf hb, ← hid]
    refine List.mem_map_of_mem ((h.mem_nodesOf_iff hb).2 ⟨by rwa [hid], hmb.trans hn.2⟩)
  have hascending := h.nodes_ascending hb
  rw [← h.map_id_nodesOf hb, heq, List.map_append, List.map_cons] at hmem hascending
  rcases List.mem_append.1 hmem with hpre | hpost
  · exact hpre
  · have hpost' := (List.pairwise_append.1 hascending).2.1
    rw [List.pairwise_cons] at hpost'
    rcases List.mem_cons.1 hpost with rfl | hpost
    · exact absurd hlt (Nat.lt_irrefl _)
    · exact absurd (hpost'.1 o hpost) (Nat.lt_asymm hlt)

end WellFormed

end Graph

namespace Graph

/-- The graph holds what the operations say. -/
structure SaidBy (operations : List Operation) (g : Graph) : Prop where
  kinds : g.blocks.toList.map Block.kind = Script.kinds operations
  nodes : g.nodes.toList = Script.nodes operations
  /-- Edges and rules are those written last, and handlers stand in the order in which their
  exceptions were first given one. -/
  shape : ∀ {b block}, g.block? b = some block → block.shape.draft.SaidBy operations b
  /-- The nodes of a block stand in the order in which they were pushed into it. -/
  block_nodes : ∀ {b block}, g.block? b = some block → block.nodes = Script.nodesOf operations b

end Graph

section Build

variable {operations : List Operation} {g : Graph}

/-- Only the special blocks hold no nodes, and without a misuse none is pushed into them. -/
theorem nodes_eq_of_saidBy {shape : BlockShape} {b : BlockId}
    (hmisuses : Script.misuses operations = [])
    (hkind : (Script.kinds operations)[b]? = some shape.kind)
    (h : shape.draft.SaidBy operations b) : shape.nodes = Script.nodesOf operations b := by
  have hspecial : ∀ special, shape.kind = .special special → Script.nodesOf operations b = [] := by
    intro special hshape
    refine List.eq_nil_iff_forall_not_mem.2 fun n hn => ?_
    obtain ⟨kind, hkind', hholds⟩ := Script.exists_kind_of_mem_nodesOf hmisuses hn
    rw [hkind, hshape] at hkind'
    cases hkind'
    simp at hholds
  cases shape with
  | regular | exceptional => exact h.1
  | conditional => exact h.1
  | entry | exit | exceptionalExit => exact (hspecial _ rfl).symm

theorem misuses_eq_nil_of_build (h : Graph.build operations = .ok g) :
    Script.misuses operations = [] := by
  have herror := (Builder.follows_applyAll operations).error
  rwa [(Builder.build_eq_ok h).1, eq_comm, List.head?_eq_none_iff] at herror

theorem saidBy_of_build (h : Graph.build operations = .ok g) : g.SaidBy operations := by
  have hmisuses := misuses_eq_nil_of_build h
  obtain ⟨hkinds, hnodes, -, hsaid⟩ := Builder.follows_applyAll operations
  obtain ⟨-, -, hnodes', hsize, hblock⟩ := Builder.build_eq_ok h
  have hkinds' : g.blocks.toList.map Block.kind = Script.kinds operations := by
    rw [← hkinds]
    refine List.ext_getElem? fun i => ?_
    simp only [List.getElem?_map, Array.getElem?_toList]
    rcases hi : g.blocks[i]? with _ | block
    · rw [Array.getElem?_eq_none_iff, hsize] at hi
      rw [Array.getElem?_eq_none hi]
      rfl
    · rw [(hblock i block hi).2.1, Option.map_some, Option.map_some, Draft.kind_draft]
      rfl
  have hshape : ∀ {b block}, g.block? b = some block → block.shape.draft.SaidBy operations b :=
    fun {b block} hb => hsaid hmisuses b _ (hblock b block hb).2.1
  refine ⟨hkinds', hnodes' ▸ hnodes, hshape, fun {b block} hb => ?_⟩
  refine nodes_eq_of_saidBy hmisuses ?_ (hshape hb)
  rw [← hkinds', List.getElem?_map, Array.getElem?_toList]
  exact congrArg (Option.map Block.kind) hb

theorem wellFormed_of_build (h : Graph.build operations = .ok g) : g.WellFormed := by
  have hg := saidBy_of_build h
  obtain ⟨-, hoperands, hnodes, -, hblock⟩ := Builder.build_eq_ok h
  have hsize : g.blocks.size = (Script.kinds operations).length := by
    rw [← hg.kinds, List.length_map, Array.length_toList]
  have hnode : ∀ {n : NodeId}, (Script.nodes operations)[n]? = g.node? n := fun {n} => by
    rw [← hg.nodes, Array.getElem?_toList]
    rfl
  have hid : ∀ {n node}, g.node? n = some node → node.id = n := fun hn =>
    Script.id_of_getElem?_nodes operations (hnode.trans hn)
  refine ⟨fun hb => (hblock _ _ hb).1, hid, fun hb => (hblock _ _ hb).2.2, ?_, fun hb n hn => ?_,
    fun hb => ?_, fun {n node} hn => ?_, fun {n node} hn o ho => ?_⟩
  · rw [hsize]
    simp [Script.kinds, entryBlock]
  · rw [hg.block_nodes hb, Script.mem_nodesOf_iff] at hn
    simpa only [hnode] using hn
  · rw [hg.block_nodes hb]
    exact Script.pairwise_nodesOf operations _
  · have hmem : n ∈ Script.nodesOf operations node.block :=
      (Script.mem_nodesOf_iff ..).2 ⟨node, hnode.trans hn, rfl⟩
    have hlt : node.block < g.blocks.size := hsize ▸ Script.subject_lt (misuses_eq_nil_of_build h)
      (Script.exists_pushNode_of_mem_nodes (List.mem_of_getElem? (hnode.trans hn))) rfl
    have hb := Array.getElem?_eq_getElem hlt
    exact ⟨_, hb, hg.block_nodes hb ▸ hmem⟩
  · simp only [Builder.firstOperandFault?, List.findSome?_eq_none_iff, ← hnodes] at hoperands
    have hfault := hoperands node (Array.mem_toList_iff.2 (Array.mem_of_getElem? hn)) o ho
    simp only [Builder.operandFault?, hid hn] at hfault
    grind

end Build

end Dataflow
