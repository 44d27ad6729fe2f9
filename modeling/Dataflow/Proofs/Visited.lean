import Dataflow.Proofs.Paths
import Dataflow.Proofs.RunInvariant

/-!
# What has been visited before

Every visit of a run was the next one in a state that the run reached (`Reaches.exists_of_mem`). A
block at which a state is recorded is at the end of a path of visited blocks, so that the blocks on
every path to it have been visited before (`Reaches.exists_lastVisit?_of_onEveryPath`), and their
nodes have values (`Reaches.get?_values_eq`).
-/

namespace Dataflow.Analysis

variable {V S : Type} [DecidableEq S] [AbstractDomain S] {a : Analysis V S} {g : Graph}
  {visits : List (BlockVisit V S)} {s : RunState V S}

theorem Reaches.exists_of_mem (h : a.Reaches g visits s) {v : BlockVisit V S} (hv : v ∈ visits) :
    ∃ before s', a.Reaches g before s' ∧ a.nextVisit? g s' = some v := by
  induction h with
  | start _ => cases hv
  | visit h hnext ih =>
    rcases List.mem_append.1 hv with hv | hv
    · exact ih hv
    · obtain rfl := List.mem_singleton.1 hv
      exact ⟨_, _, h, hnext⟩

variable (hg : g.WellFormed)

include hg

/-- When nothing waits, a recorded state is the one that a visit of its block began with. -/
theorem Reaches.exists_visit_of_stateBefore? (h : a.Reaches g visits s) (hqueue : s.queue = [])
    {b : BlockId} {x : S} (hb : s.stateBefore? b = some x) :
    ∃ v ∈ visits, v.block.id = b ∧ v.entry = x ∧
      ∃ before s', a.Reaches g before s' ∧ a.nextVisit? g s' = some v := by
  rw [(h.runInv hg).stateBefore?_eq hqueue] at hb
  obtain ⟨v, hlast, rfl⟩ := Option.map_eq_some_iff.1 hb
  obtain ⟨hmem, hvb⟩ := mem_of_lastVisit?_eq_some hlast
  exact ⟨v, hmem, hvb, rfl, h.exists_of_mem hmem⟩

theorem Reaches.exists_path (h : a.Reaches g visits s) {b : BlockId}
    (hb : (s.before.get? b).isSome) :
    ∃ path, g.Path (b :: path) ∧ ∀ c ∈ path, ∃ v ∈ visits, v.block.id = c := by
  refine h.induction_runInv (P := fun visits s => ∀ b, (s.before.get? b).isSome →
    ∃ path, g.Path (b :: path) ∧ ∀ c ∈ path, ∃ v ∈ visits, v.block.id = c) hg ?_ ?_ ?_ ?_ ?_ b hb
  · exact fun b hb => by cases hb
  · exact fun _ h => h
  · intro visits s source target state hinv harrives h b hb
    rw [RunState.get?_before_receive] at hb
    split at hb
    · subst_vars
      rcases harrives with ⟨rfl, -⟩ | ⟨v, hv, e, he, -⟩
      · exact ⟨[], .entry, by simp⟩
      · obtain ⟨path, hpath, hvisited⟩ := h _ (hinv.visited_recorded v hv)
        have hsucc := (Graph.mem_successors_iff (hinv.visited_block v hv)).2
          (BlockShape.target_mem_targets he)
        exact ⟨_, hpath.step hsucc, List.forall_mem_cons.2 ⟨⟨v, hv, rfl⟩, hvisited⟩⟩
    · exact h b hb
  · intro visits s v _ _ h b hb
    obtain ⟨path, hpath, hvisited⟩ := h b hb
    exact ⟨path, hpath, fun c hc => (hvisited c hc).imp fun w hw =>
      ⟨List.mem_append_left _ hw.1, hw.2⟩⟩
  · intro visits s b' h b hb
    rw [RunState.before_closed] at hb
    exact h b hb

/-- What lies on every path to a recorded block has been visited. -/
theorem Reaches.exists_lastVisit?_of_onEveryPath (h : a.Reaches g visits s) {b d : BlockId}
    (hb : (s.before.get? b).isSome) (hd : g.OnEveryPath d b) (hne : d ≠ b) :
    ∃ v, lastVisit? visits d = some v := by
  obtain ⟨path, hpath, hvisited⟩ := h.exists_path hg hb
  obtain ⟨v, hv, rfl⟩ := hvisited d ((List.mem_cons.1 (hd path hpath)).resolve_left hne)
  exact Option.isSome_iff_exists.1 (isSome_lastVisit? hv)

/-- The value of a node of a visited block is what the node has been found to come to. -/
theorem Reaches.get?_values_eq (h : a.Reaches g visits s) {n : NodeId} {node : Node}
    (hn : g.node? n = some node) {v : BlockVisit V S} (hv : lastVisit? visits node.block = some v) :
    ∃ state values,
      s.values.get? n = some (a.transfer.visit ⟨node, g.nodes, state, values⟩).value := by
  obtain ⟨hmem, hvb⟩ := mem_of_lastVisit?_eq_some hv
  have hinv := h.runInv hg
  have hblock := hinv.visited_block v hmem
  have hid := hg.node_id hn
  have hnode : node ∈ v.nodes.map (·.node) := by
    rw [hinv.nodes_eq hmem]
    exact (hg.mem_nodesOf_iff hblock).2 ⟨hid ▸ hn, hvb.symm⟩
  obtain ⟨w, hw, rfl⟩ := List.mem_map.1 hnode
  obtain ⟨values, hnodes⟩ := hinv.visited_nodes v hmem
  obtain ⟨values', hvisit⟩ := exists_eq_visitNode_of_mem_pass _ (hnodes ▸ hw)
  refine ⟨w.state, values', ?_⟩
  have hvalue := h.value?_of_mem hg hv hw
  rw [hid, Solution.value?] at hvalue
  rw [hvalue]
  exact congrArg (some ·.result.value) hvisit

end Dataflow.Analysis
