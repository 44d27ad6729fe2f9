import Dataflow.Checker.Tags
import Dataflow.Proofs.Convergence
import Dataflow.Proofs.DepthFirst
import Dataflow.Proofs.Visited
import Mathlib.Tactic.TFAE

/-!
# The live part of a graph

Whatever is recorded at a block has come there along edges that carry a state
(`Reaches.exists_livePath`), and a run that finds a solution has sent on all that it has recorded
(`Reaches.isSome_of_livePath`). So the blocks with a state (`Reaches.isSome_before_iff`), and with
any other result, are those that a live path leads to (`results_of_live`).
-/

namespace Dataflow

namespace Graph

/-- A path from the entry along edges that carry a state, the last edge first. -/
inductive LivePath (g : Graph) : List (BlockId × Edge) → BlockId → Prop
  | entry : LivePath g [] entryBlock
  | step {path : List (BlockId × Edge)} {b target : BlockId} {block : Block} {e : Edge} :
    LivePath g path b → g.block? b = some block → (e, target) ∈ block.shape.edges →
    block.shape.carries e → LivePath g ((b, e) :: path) target

theorem LivePath.exists_path {g : Graph} {path : List (BlockId × Edge)} {b : BlockId}
    (h : g.LivePath path b) : ∃ blocks, g.Path (b :: blocks) := by
  induction h with
  | entry => exact ⟨[], .entry⟩
  | step _ hb he _ ih =>
    obtain ⟨blocks, hblocks⟩ := ih
    exact ⟨_, hblocks.step ((mem_successors_iff hb).2 (BlockShape.target_mem_targets he))⟩

end Graph

variable {V S : Type} [DecidableEq S] [AbstractDomain S]

namespace Analysis

variable {a : Analysis V S} {g : Graph} {visits : List (BlockVisit V S)} {s : RunState V S}

theorem Reaches.isSome_of_arrives (h : a.Reaches g visits s) {b : BlockId} {x : S}
    (harrives : a.Arrives g visits b x) : (s.before.get? b).isSome := by
  refine h.of_arrives (P := fun s => (s.before.get? b).isSome) (fun s source => ?_) (fun _ h => h)
    (fun source target state h => ?_) (fun _ h => h) (fun b' h => ?_) harrives
  · rw [RunState.get?_before_receive, if_pos rfl, Option.isSome_some]
  · rw [RunState.get?_before_receive]
    split
    · rfl
    · exact h
  · rwa [RunState.before_closed]

variable (hg : g.WellFormed)

include hg

theorem Reaches.exists_livePath (h : a.Reaches g visits s) {b : BlockId} {x : S}
    (hb : s.before.get? b = some x) : ∃ path, g.LivePath path b := by
  have hinv := h.recorded_induction hg (P := fun b _ _ => ∃ path, g.LivePath path b)
    (A := fun b _ => ∃ path, g.LivePath path b) ⟨[], .entry⟩ id (fun hb _ _ _ => hb) ?_
  · exact hinv.1.recorded hb
  intro visits s v _ _ hv hpath e target he state hsent
  obtain ⟨path, hpath⟩ := hpath
  have hcarries : v.block.shape.carries e := by
    rw [← Pass.isSome_sent v.block.shape v.entry v.nodes e, ← BlockVisit.sent, hsent]
    rfl
  exact ⟨_, hpath.step (nextVisit_of_eq_some hg hv).block he hcarries⟩

/-- When nothing waits, what is recorded at the blocks of a path has been sent on along it. -/
theorem Reaches.isSome_of_livePath (h : a.Reaches g visits s) (hqueue : s.queue = [])
    {path : List (BlockId × Edge)} {b : BlockId} (hpath : g.LivePath path b) :
    (s.before.get? b).isSome := by
  induction hpath with
  | entry => exact h.isSome_of_arrives (.inl ⟨rfl, rfl⟩)
  | @step path b target block e _ hb he hcarries ih =>
    obtain ⟨x, hx⟩ := Option.isSome_iff_exists.1 ih
    obtain ⟨v, hv, rfl, -, -⟩ := h.exists_visit_of_stateBefore? hg hqueue hx
    obtain rfl : v.block = block :=
      Option.some.inj (((h.runInv hg).visited_block v hv).symm.trans hb)
    obtain ⟨state, hsent⟩ : ∃ state, v.sent e = some state := by
      rw [← Option.isSome_iff_exists, BlockVisit.sent, Pass.isSome_sent]
      exact hcarries
    exact h.isSome_of_arrives (.inr ⟨v, hv, e, he, hsent⟩)

/-- When nothing waits, the blocks with a state are those that a live path leads to. -/
theorem Reaches.isSome_before_iff (h : a.Reaches g visits s) (hqueue : s.queue = []) (b : BlockId) :
    (s.before.get? b).isSome ↔ ∃ path, g.LivePath path b := by
  constructor
  · intro hb
    obtain ⟨x, hx⟩ := Option.isSome_iff_exists.1 hb
    exact h.exists_livePath hg hx
  · rintro ⟨path, hpath⟩
    exact h.isSome_of_livePath hg hqueue hpath

end Analysis

/-- The blocks that a live path leads to are those with a recorded state, those with an outflow and
those that have been visited, and their nodes are those with a value. All of them are reachable, and
the visits of blocks make up the visits of the run. -/
theorem results_of_live {operations : List Operation} {g : Graph}
    (hbuild : Graph.build operations = .ok g) {a : Analysis V S} {fuel : Nat} {r : Run V S}
    {sol : Solution V S} (hr : a.runFor g fuel = some r) (hsol : r.result = .ok sol) :
    (∀ b, [∃ path, g.LivePath path b, (sol.stateBefore? b).isSome, (sol.outflow? b).isSome,
      1 ≤ sol.visitsOf b].TFAE) ∧
    (∀ n, (sol.value? n).isSome ↔
      ∃ node, g.node? n = some node ∧ (sol.stateBefore? node.block).isSome) ∧
    (∀ path b, g.LivePath path b → g.isReachable b) ∧
    sol.totalVisits = ∑ b ∈ Finset.range g.blocks.size, sol.visitsOf b := by
  have hg := wellFormed_of_build hbuild
  obtain ⟨s, hs, hqueue, rfl⟩ := Analysis.reaches_of_result_eq_ok hg hr hsol
  have hinv := hs.runInv hg
  have hacc := hs.accounts
  have hlast := hinv.isSome_stateBefore? hqueue
  refine ⟨fun b => ?_, fun n => ?_, fun path b hpath => ?_, ?_⟩
  · tfae_have 1 → 2 := fun ⟨_, hpath⟩ => hs.isSome_of_livePath hg hqueue hpath
    tfae_have 2 → 1 := fun h =>
      have ⟨_, hx⟩ := Option.isSome_iff_exists.1 h
      hs.exists_livePath hg hx
    tfae_have 2 ↔ 3 := by
      rw [hlast, Solution.outflow?, hacc.after, Option.isSome_map]
    tfae_have 2 ↔ 4 := by
      rw [hlast, hacc.visitsOf]
      exact isSome_lastVisit?_iff
    tfae_finish
  · simp only [hs.isSome_value?_iff hg, hlast]
  · obtain ⟨blocks, hblocks⟩ := hpath.exists_path
    exact Graph.isReachable_of_path hg hblocks
  · rw [hacc.totalVisits, length_eq_sum_countP]
    · exact Finset.sum_congr rfl fun b _ => (hacc.visitsOf b).symm
    · exact fun v hv => (Array.getElem?_eq_some_iff.1 (hinv.visited_block v hv)).1

/-- A test whose else edge carries nothing: one branch may throw, and into the other nothing flows.
-/
def silencedBranch : List Operation :=
  [.addConditional, .pushNode 3 (.marker "test"), .addExceptional, .pushNode 4 (.marker "call"),
    .addRegular, .pushNode 5 (.marker "never"), .connect 0 3, .connectBranches 3 4 5,
    .setRule 3 .elseBranch .bothToThen, .connect 4 3, .addHandler 4 "E" 2, .connect 5 1]

/-- The handler has results, and the silenced branch, with the exit behind it, has none. -/
theorem results_of_live_silencedBranch :
    let a : Analysis (Flat Int64) Tags := { transfer := TagChecker.transfer {} }
    ∃ g r sol, Graph.build silencedBranch = .ok g ∧ a.runFor g 30 = some r ∧ r.result = .ok sol ∧
      ((sol.stateBefore? 2).isSome ∧ sol.stateBefore? 5 = none ∧ sol.stateBefore? 1 = none) ∧
      (∀ b, [∃ path, g.LivePath path b, (sol.stateBefore? b).isSome, (sol.outflow? b).isSome,
        1 ≤ sol.visitsOf b].TFAE) ∧
      (∀ n, (sol.value? n).isSome ↔
        ∃ node, g.node? n = some node ∧ (sol.stateBefore? node.block).isSome) ∧
      (∀ path b, g.LivePath path b → g.isReachable b) ∧
      sol.totalVisits = ∑ b ∈ Finset.range g.blocks.size, sol.visitsOf b := by
  intro a
  have hsolved : (a.solve? silencedBranch 30).any fun (_, sol) =>
      (sol.stateBefore? 2).isSome ∧ sol.stateBefore? 5 = none ∧ sol.stateBefore? 1 = none := by
    decide +kernel
  obtain ⟨⟨g, sol⟩, hsolve, hstates⟩ := (Option.any_eq_true _ _).1 hsolved
  obtain ⟨hg, r, hr, hsol⟩ := Analysis.solve?_eq_some hsolve
  exact ⟨g, r, sol, hg, hr, hsol, of_decide_eq_true hstates, results_of_live hg hr hsol⟩

end Dataflow
