import Dataflow.Proofs.LivePart
import Dataflow.Proofs.Priority

/-!
# One pass over code without loops

Where no reachable block leads back to itself, every edge goes forward in the reverse postorder, so
that whatever waits stands after all that has been visited (`Reaches.forward`). A run that visits
blocks in this order then visits each of them once (`singlePass_of_acyclic`), whatever the domain
and the transfer function.
-/

namespace Dataflow

variable {V S : Type}

/-- The position of a block in the reverse postorder. -/
def Graph.position (g : Graph) (b : BlockId) : Nat :=
  g.order.idxOf b

namespace Analysis

/-- The visits follow the reverse postorder, and whatever waits stands after all of them. -/
structure Forward (g : Graph) (visits : List (BlockVisit V S)) (s : RunState V S) : Prop where
  visited : visits.Pairwise fun v w => g.position v.block.id < g.position w.block.id
  waiting : ∀ v ∈ visits, ∀ b ∈ s.queue, g.position v.block.id < g.position b

theorem Forward.countP_le {g : Graph} {visits : List (BlockVisit V S)} {s : RunState V S}
    (h : Forward g visits s) (b : BlockId) :
    visits.countP (·.block.id = b) + (if b ∈ s.queue then 1 else 0) ≤ 1 := by
  have hnodup : (visits.map (·.block.id)).Nodup :=
    List.pairwise_map.2 (h.visited.imp fun hlt heq => Nat.ne_of_lt hlt (congrArg g.position heq))
  have hcount : visits.countP (·.block.id = b) ≤ 1 := by
    have hle := List.nodup_iff_count_le_one.1 hnodup b
    rwa [List.count, List.countP_map] at hle
  split_ifs with hb
  · have hnone : visits.countP (·.block.id = b) = 0 := by
      rw [List.countP_eq_zero]
      intro v hv heq
      exact Nat.ne_of_lt (h.waiting v hv b hb) (congrArg g.position (of_decide_eq_true heq))
    rw [hnone]
  · exact hcount

/-- Of two visits, that of the block that stands first comes first. -/
theorem Forward.sublist {g : Graph} {visits : List (BlockVisit V S)} {s : RunState V S}
    (h : Forward g visits s) {v w : BlockVisit V S} (hv : v ∈ visits) (hw : w ∈ visits)
    (hlt : g.position v.block.id < g.position w.block.id) : [v, w].Sublist visits := by
  obtain ⟨pre, post, rfl⟩ := List.append_of_mem hv
  obtain ⟨-, -, hpre⟩ := List.pairwise_append.1 h.visited
  refine List.Sublist.trans ?_ (List.sublist_append_right pre _)
  refine List.Sublist.cons_cons v (List.singleton_sublist.2 ?_)
  rcases List.mem_append.1 hw with hw | hw
  · exact absurd (hpre w hw v List.mem_cons_self) (Nat.lt_asymm hlt)
  · refine (List.mem_cons.1 hw).resolve_left fun heq => ?_
    exact Nat.ne_of_lt hlt (by rw [heq])

variable [DecidableEq S] [AbstractDomain S] {a : Analysis V S} {g : Graph}
  {visits : List (BlockVisit V S)} {s : RunState V S}

theorem Reaches.mem_order_of_mem_queue (hg : g.WellFormed) (h : a.Reaches g visits s) {b : BlockId}
    (hb : b ∈ s.queue) : b ∈ g.order := by
  obtain ⟨path, hpath, -⟩ := h.exists_path hg ((h.runInv hg).waiting_recorded hb)
  exact hg.mem_order_iff.2 hpath.leads

/-- In reverse postorder, blocks wait by position. -/
theorem Reaches.pairwise_position (hg : g.WellFormed)
    (horder : a.config.order = .reversePostorder) (h : a.Reaches g visits s) :
    s.queue.Pairwise fun b c => g.position b < g.position c := by
  refine (h.sorted horder).imp_of_mem fun {b c} hb _ hbefore => ?_
  rcases hbefore with hlt | ⟨heq, hlt⟩
  · exact hlt
  · obtain rfl := (List.idxOf_inj (h.mem_order_of_mem_queue hg hb)).1 heq
    exact absurd hlt (Nat.lt_irrefl _)

/-- The next block stands before all others that wait. -/
theorem Reaches.position_lt_of_mem_tail (hg : g.WellFormed)
    (horder : a.config.order = .reversePostorder) (h : a.Reaches g visits s) {b c : BlockId}
    {rest : List BlockId} (hqueue : s.queue = b :: rest) (hc : c ∈ rest) :
    g.position b < g.position c :=
  (List.pairwise_cons.1 (hqueue ▸ h.pairwise_position hg horder)).1 c hc

variable (hg : g.WellFormed) (hacyclic : g.Acyclic) (horder : a.config.order = .reversePostorder)

include hg hacyclic

/-- A block that a visit sends a state to stands after the block visited. -/
theorem Reaches.position_lt_of_mem_edges (h : a.Reaches g visits s) {v : BlockVisit V S}
    (hv : a.nextVisit? g s = some v) {e : Edge} {target : BlockId}
    (he : (e, target) ∈ v.block.shape.edges) : g.position v.block.id < g.position target := by
  have hnext := nextVisit_of_eq_some hg hv
  exact hacyclic.idxOf_lt hg (List.contains_iff_mem.2 (h.mem_order_of_mem_queue hg hnext.mem_queue))
    ((Graph.mem_successors_iff hnext.block).2 (BlockShape.target_mem_targets he))

include horder

theorem Reaches.forward (h : a.Reaches g visits s) : Forward g visits s := by
  induction h with
  | start _ => exact ⟨.nil, by simp⟩
  | @visit visits s v h hv ih =>
    have hnext := nextVisit_of_eq_some hg hv
    obtain ⟨rest, hqueue⟩ := hnext.queue
    have hbefore : ∀ w ∈ visits, g.position w.block.id < g.position v.block.id :=
      fun w hw => ih.waiting w hw _ hnext.mem_queue
    have hafter : ∀ c ∈ (s.visited a.config g v).queue, g.position v.block.id < g.position c := by
      intro c hc
      rcases (h.runInv hg).mem_queue_visited hg hv hc with hc | ⟨e, he, -⟩
      · exact h.position_lt_of_mem_tail hg horder hqueue (by simpa [hqueue] using hc)
      · exact h.position_lt_of_mem_edges hg hacyclic hv he
    refine ⟨List.pairwise_append.2 ⟨ih.visited, List.pairwise_singleton _ _, fun w hw v' hv' => ?_⟩,
      fun w hw c hc => ?_⟩
    · rw [List.mem_singleton.1 hv']
      exact hbefore w hw
    · rcases List.mem_append.1 hw with hw | hw
      · exact (hbefore w hw).trans (hafter c hc)
      · rw [List.mem_singleton.1 hw]
        exact hafter c hc

end Analysis

variable [DecidableEq S] [AbstractDomain S]

/-- Over a graph whose reachable part has no cycle, a run in reverse postorder finds a solution that
has visited every block with a recorded state once, in the order of their positions, and a block
after all those that have sent it a state. -/
theorem singlePass_of_acyclic {operations : List Operation} {g : Graph}
    (hbuild : Graph.build operations = .ok g) (hacyclic : g.Acyclic) {a : Analysis V S}
    (horder : a.config.order = .reversePostorder) (hfree : a.Unhindered 1) :
    a.ConvergesWithin g 1 ∧
      ∀ fuel r sol, a.runFor g fuel = some r → r.result = .ok sol →
        (∀ b, sol.visitsOf b = if (sol.stateBefore? b).isSome then 1 else 0) ∧
        ((a.visitsFor g fuel).Pairwise fun v w =>
          g.position v.block.id < g.position w.block.id) ∧
        ∀ v ∈ a.visitsFor g fuel, ∀ e target, (e, target) ∈ v.block.shape.edges →
          (v.sent e).isSome → ∃ w, w.block.id = target ∧ [v, w].Sublist (a.visitsFor g fuel) := by
  have hg := wellFormed_of_build hbuild
  refine ⟨Analysis.convergesWithin_of_countP_le hg
    (fun hs b => (hs.forward hg hacyclic horder).countP_le b) hfree, fun fuel r sol hr hsol => ?_⟩
  obtain ⟨s, hs, hqueue, rfl⟩ := Analysis.reaches_of_result_eq_ok hg hr hsol
  have hforward := hs.forward hg hacyclic horder
  have hlast := (hs.runInv hg).isSome_stateBefore? hqueue
  refine ⟨fun b => ?_, hforward.visited, fun v hv e target he hsent => ?_⟩
  · have hle := hforward.countP_le b
    have hpos : (lastVisit? (a.visitsFor g fuel) b).isSome ↔
        0 < (a.visitsFor g fuel).countP (·.block.id = b) := isSome_lastVisit?_iff
    rw [hs.accounts.visitsOf, hlast]
    split_ifs with hsome
    · have := hpos.1 hsome
      omega
    · have := mt hpos.2 hsome
      omega
  · obtain ⟨state, hstate⟩ := Option.isSome_iff_exists.1 hsent
    obtain ⟨w, hw⟩ : ∃ w, lastVisit? (a.visitsFor g fuel) target = some w := by
      rw [← Option.isSome_iff_exists, ← hlast]
      exact hs.isSome_of_arrives (.inr ⟨v, hv, e, he, hstate⟩)
    obtain ⟨hmem, rfl⟩ := mem_of_lastVisit?_eq_some hw
    obtain ⟨before, s', hs', hnext⟩ := hs.exists_of_mem hv
    exact ⟨w, rfl, hforward.sublist hv hmem (hs'.position_lt_of_mem_edges hg hacyclic hnext he)⟩

/-- A test before a call that may throw; the handler comes to where the test fails. -/
def guardedCall : List Operation :=
  [.addRegular, .pushNode 3 (.marker "last"), .addConditional, .pushNode 4 (.marker "split"),
    .addExceptional, .pushNode 5 (.marker "call"), .connect 0 4, .connectBranches 4 5 3,
    .connect 5 1, .addHandler 5 "E" 3, .connect 3 1]

def guardedCallGraph : Graph :=
  .ofTables
    #[⟨0, .entry 4⟩, ⟨1, .exit⟩, ⟨2, .exceptionalExit⟩, ⟨3, .regular [0] 1⟩,
      ⟨4, .conditional 1 ⟨5, .eachToEach⟩ ⟨3, .eachToEach⟩⟩,
      ⟨5, .exceptional [2] 1 ⟨[("E", 3)], by decide⟩⟩]
    #[⟨0, 3, .marker "last"⟩, ⟨1, 4, .marker "split"⟩, ⟨2, 5, .marker "call"⟩]

theorem build_guardedCall : Graph.build guardedCall = .ok guardedCallGraph := rfl

theorem acyclic_guardedCall : guardedCallGraph.Acyclic :=
  Graph.acyclic_of_rank (fun b => [0, 4, 5, 3, 1, 2].getD b 0) (by decide)

/-- The handler, which two edges lead to, waits for the call. -/
theorem singlePass_guardedCall :
    let a := countingFromZero none {}
    ∃ g r sol, Graph.build guardedCall = .ok g ∧ g.Acyclic ∧ a.Unhindered 1 ∧
      a.runFor g 30 = some r ∧ r.result = .ok sol ∧
      (a.visitsFor g 30).map (·.block.id) = [0, 4, 5, 3, 1] ∧ a.ConvergesWithin g 1 ∧
      (∀ b, sol.visitsOf b = if (sol.stateBefore? b).isSome then 1 else 0) ∧
      ((a.visitsFor g 30).Pairwise fun v w => g.position v.block.id < g.position w.block.id) ∧
      ∀ v ∈ a.visitsFor g 30, ∀ e target, (e, target) ∈ v.block.shape.edges →
        (v.sent e).isSome → ∃ w, w.block.id = target ∧ [v, w].Sublist (a.visitsFor g 30) := by
  intro a
  have hfree : a.Unhindered 1 := ⟨rfl, fun _ => rfl, fun hcap => by cases hcap; decide⟩
  obtain ⟨hconverges, hruns⟩ :=
    singlePass_of_acyclic build_guardedCall acyclic_guardedCall (a := a) rfl hfree
  obtain ⟨r, sol, hr, hsol, -⟩ := hconverges 30 (by decide)
  exact ⟨_, r, sol, build_guardedCall, acyclic_guardedCall, hfree, hr, hsol, by decide +kernel,
    hconverges, hruns 30 r sol hr hsol⟩

end Dataflow
