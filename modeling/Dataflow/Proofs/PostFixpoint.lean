import Dataflow.Analysis.PostFixpoint
import Dataflow.Proofs.CounterLaws
import Dataflow.Proofs.RunInvariant

/-!
# Solutions are post-fixpoints

On a lawful domain a recorded state only grows (`Absorbs.receive`), so that whatever has come to a
block is below what is recorded there when the run ends (`Reaches.absorbs_of_arrives`). Nothing is
assumed of the transfer function.
-/

namespace Dataflow

variable {V S : Type} [DecidableEq S] [AbstractDomain S]

/-- The table has a state at the block, and this one is below it. -/
def Absorbs (table : BlockId → Option S) (b : BlockId) (state : S) : Prop :=
  ∃ recorded, table b = some recorded ∧ below state recorded

theorem Solution.mem_edges_of_mem_sentNormally {shape : BlockShape} {entry : S}
    {nodes : List (NodeVisit V S)} {target : BlockId} {state : S}
    (h : (target, state) ∈ sentNormally shape (Pass.outflow shape entry nodes)) :
    ∃ e, (e, target) ∈ shape.edges ∧ Pass.sent shape entry nodes e = some state := by
  cases shape with
  | exit => cases h
  | exceptionalExit => cases h
  | conditional condition thenEdge elseEdge =>
    simp only [sentNormally, Pass.outflow, Outflow.thenState, Outflow.elseState, List.mem_append,
      Option.mem_toList, Option.map_eq_some_iff, Prod.mk.injEq] at h
    rcases h with ⟨x, hx, rfl, rfl⟩ | ⟨x, hx, rfl, rfl⟩
    · exact ⟨.branch .thenBranch, by simp [BlockShape.edges], hx⟩
    · exact ⟨.branch .elseBranch, by simp [BlockShape.edges], hx⟩
  | _ =>
    obtain ⟨rfl, rfl⟩ := Prod.mk.injEq .. ▸ List.mem_singleton.1 h
    exact ⟨.normal, by simp [BlockShape.edges], rfl⟩

section Growth

variable [Inspect S] (hS : Lawful S)

include hS

namespace Lawful

theorem below_merged (c : AnalysisConfig) (s : RunState V S) (target : BlockId) (incoming : S) :
    below incoming (s.merged c target incoming) := by
  unfold RunState.merged
  split
  · exact hS.below_refl incoming
  · split_ifs with hbelow
    · exact hbelow
    · exact hS.below_merge_right _ _ _ _

theorem recorded_below_merged (c : AnalysisConfig) (s : RunState V S) {target : BlockId}
    (incoming : S) {recorded : S} (h : s.before.get? target = some recorded) :
    below recorded (s.merged c target incoming) := by
  unfold RunState.merged
  rw [h]
  simp only
  split_ifs
  · exact hS.below_refl recorded
  · exact hS.below_merge_left _ _ _ _

end Lawful

theorem Absorbs.join {table : BlockId → Option S} {b : BlockId} {x y : S} (hx : Absorbs table b x)
    (hy : Absorbs table b y) : Absorbs table b (join x y) := by
  obtain ⟨z, hz, hbelow⟩ := hx
  obtain ⟨z', hz', hbelow'⟩ := hy
  obtain rfl : z = z' := Option.some.inj (hz.symm.trans hz')
  exact ⟨z, hz, hS.join_below hbelow hbelow'⟩

variable {s : RunState V S} {b : BlockId} {x : S}

theorem absorbs_receive (c : AnalysisConfig) (g : Graph) (s : RunState V S) (source b : BlockId)
    (x : S) : Absorbs (s.receive c g source b x).stateBefore? b x := by
  refine ⟨s.merged c b x, ?_, hS.below_merged c s b x⟩
  rw [Solution.stateBefore?, RunState.get?_before_receive, if_pos rfl]

theorem Absorbs.receive (h : Absorbs s.stateBefore? b x) (c : AnalysisConfig) (g : Graph)
    (source target : BlockId) (incoming : S) :
    Absorbs (s.receive c g source target incoming).stateBefore? b x := by
  obtain ⟨recorded, hrecorded, hbelow⟩ := h
  have hbefore := RunState.get?_before_receive c g s source target incoming b
  by_cases hb : b = target
  · subst hb
    rw [if_pos rfl] at hbefore
    exact ⟨_, hbefore, hS.below_trans hbelow (hS.recorded_below_merged c s incoming hrecorded)⟩
  · rw [if_neg hb] at hbefore
    exact ⟨recorded, hbefore.trans hrecorded, hbelow⟩

/-- Whatever has come to a block is below what is recorded there. -/
theorem Analysis.Reaches.absorbs_of_arrives {a : Analysis V S} {g : Graph}
    {visits : List (BlockVisit V S)} (h : a.Reaches g visits s)
    (harrives : a.Arrives g visits b x) : Absorbs s.stateBefore? b x :=
  h.of_arrives (P := fun s => Absorbs s.stateBefore? b x)
    (fun s source => absorbs_receive hS a.config g s source b x) (fun _ h => h)
    (fun source target state h => h.receive hS a.config g source target state) (fun _ h => h)
    (fun b' h => by rwa [Absorbs, Solution.stateBefore?, RunState.before_closed]) harrives

end Growth

/-! ## The solution of a run -/

section Solution

variable [Inspect S] (hS : Lawful S) {g : Graph} (a : Analysis V S) {fuel : Nat} {r : Run V S}
  {sol : Solution V S} (hr : a.runFor g fuel = some r) (hsol : r.result = .ok sol)

include hS hr hsol

theorem absorbs_initial (hwf : g.WellFormed) :
    Absorbs sol.stateBefore? entryBlock (a.transfer.initial g) := by
  obtain ⟨s, hs, -, rfl⟩ := Analysis.reaches_of_result_eq_ok hwf hr hsol
  exact hs.absorbs_of_arrives hS (.inl ⟨rfl, rfl⟩)

/-- A recorded state is the one that the last visit of its block has begun with, and the solution
holds the values which that visit has found and absorbs what it has sent. -/
theorem exists_visit_of_stateBefore?_eq_some (hwf : g.WellFormed) {b : BlockId} {x : S}
    (hb : sol.stateBefore? b = some x) :
    ∃ v : BlockVisit V S, g.block? b = some v.block ∧ v.entry = x ∧
      (∃ values, v.nodes = a.transfer.pass g.nodes values x (g.nodesOf v.block)) ∧
      (∀ w ∈ v.nodes, sol.value? w.node.id = some w.result.value) ∧
      ∀ {e target}, (e, target) ∈ v.block.shape.edges → ∀ {state}, v.sent e = some state →
        Absorbs sol.stateBefore? target state := by
  obtain ⟨s, hs, hqueue, rfl⟩ := Analysis.reaches_of_result_eq_ok hwf hr hsol
  have hinv := hs.runInv hwf
  rw [hinv.stateBefore?_eq hqueue] at hb
  obtain ⟨v, hv, rfl⟩ := Option.map_eq_some_iff.1 hb
  obtain ⟨hmem, rfl⟩ := mem_of_lastVisit?_eq_some hv
  exact ⟨v, hinv.visited_block v hmem, rfl, hinv.visited_nodes v hmem,
    fun w hw => hs.value?_of_mem hwf hv hw,
    fun he _ hstate => hs.absorbs_of_arrives hS (.inr ⟨v, hmem, _, he, hstate⟩)⟩

/-- A run that finds a solution finds a post-fixpoint: the initial state is below what is recorded
at the entry, and what the last visit of a block sent along any of its edges is below what is
recorded at the target of the edge. -/
theorem postFixpoint_of_result_eq_ok {operations : List Operation}
    (hg : Graph.build operations = .ok g) :
    Absorbs sol.stateBefore? entryBlock (a.transfer.initial g) ∧
      (∀ b, 0 < sol.visitsOf b → ∃ v, lastVisit? (a.visitsFor g fuel) b = some v ∧
        g.block? b = some v.block ∧ sol.outflow? b = some v.outflow ∧
        ∀ e target, (e, target) ∈ v.block.shape.edges → ∀ state, v.sent e = some state →
          Absorbs sol.stateBefore? target state) ∧
      sol.postFixpointFault? g = none := by
  have hwf := wellFormed_of_build hg
  obtain ⟨s, hs, -, rfl⟩ := Analysis.reaches_of_result_eq_ok hwf hr hsol
  have hinv := hs.runInv hwf
  have hacc := hs.accounts
  have hsent : ∀ v ∈ a.visitsFor g fuel, ∀ {e target}, (e, target) ∈ v.block.shape.edges →
      ∀ {state}, v.sent e = some state → Absorbs s.stateBefore? target state :=
    fun v hv e target he state hstate => hs.absorbs_of_arrives hS (.inr ⟨v, hv, e, he, hstate⟩)
  refine ⟨absorbs_initial hS a hr hsol hwf, fun b hb => ?_, ?_⟩
  · rw [hacc.visitsOf, List.countP_pos_iff] at hb
    obtain ⟨w, hw, hwb⟩ := hb
    obtain ⟨v, hv⟩ := Option.isSome_iff_exists.1 (isSome_lastVisit? hw)
    rw [of_decide_eq_true hwb] at hv
    obtain ⟨hmem, hvb⟩ := mem_of_lastVisit?_eq_some hv
    refine ⟨v, hv, hvb ▸ hinv.visited_block v hmem, ?_, fun e target he state => hsent v hmem he⟩
    rw [Solution.outflow?, hacc.after, hv]
    rfl
  · rw [Solution.postFixpointFault?, List.findSome?_eq_none_iff]
    intro block hblock
    rw [Solution.blockFault?, Solution.outflow?, hacc.after, Option.bind_eq_none_iff]
    intro out hout
    obtain ⟨v, hv, rfl⟩ := Option.map_eq_some_iff.1 hout
    obtain ⟨hmem, hvb⟩ := mem_of_lastVisit?_eq_some hv
    obtain ⟨i, hi⟩ := Array.mem_iff_getElem?.1 (Array.mem_toList_iff.1 hblock)
    have hid : block.id = i := hwf.block_id hi
    obtain rfl : v.block = block := by
      have := hinv.visited_block v hmem
      rw [hvb, hid] at this
      exact Option.some.inj (this.symm.trans hi)
    rw [List.findSome?_eq_none_iff]
    rintro ⟨target, state⟩ htarget
    obtain ⟨e, he, hstate⟩ := Solution.mem_edges_of_mem_sentNormally htarget
    obtain ⟨recorded, hrecorded, hbelow⟩ := hsent v hmem he hstate
    simp [Solution.edgeFault?, hrecorded, hbelow]

end Solution

/-- Counting up without a limit comes to a post-fixpoint by widening. -/
theorem postFixpoint_countingLoop :
    let a := countingFromZero none { widening := .delayed 2 }
    ∃ g r sol, Graph.build countingLoop = .ok g ∧ a.runFor g 30 = some r ∧ r.result = .ok sol ∧
      0 < sol.visitsOf 4 ∧ Absorbs sol.stateBefore? entryBlock (a.transfer.initial g) ∧
      (∀ b, 0 < sol.visitsOf b → ∃ v, lastVisit? (a.visitsFor g 30) b = some v ∧
        g.block? b = some v.block ∧ sol.outflow? b = some v.outflow ∧
        ∀ e target, (e, target) ∈ v.block.shape.edges → ∀ state, v.sent e = some state →
          Absorbs sol.stateBefore? target state) ∧
      sol.postFixpointFault? g = none := by
  intro a
  have hvisits : (a.solve? countingLoop 30).any fun found => 0 < found.2.visitsOf 4 := by
    decide +kernel
  obtain ⟨⟨g, sol⟩, hsolve, hpos⟩ := (Option.any_eq_true _ _).1 hvisits
  obtain ⟨hg, r, hr, hsol⟩ := Analysis.solve?_eq_some hsolve
  exact ⟨g, r, sol, hg, hr, hsol, of_decide_eq_true hpos,
    postFixpoint_of_result_eq_ok Counter.lawful a hr hsol hg⟩

end Dataflow
