import Dataflow.Proofs.PostFixpoint

/-!
# States at the entry ascend

On a lawful domain a block waits only while the state recorded there is strictly above all those
that its visits began with (`Ascends`), so that a later visit begins with a strictly greater state,
in whatever way the run ends (`visits_ascend`).
-/

namespace Dataflow

variable {V S : Type} [DecidableEq S] [AbstractDomain S]

namespace Analysis

variable {a : Analysis V S} {g : Graph} {visits : List (BlockVisit V S)} {s : RunState V S}

/-- The node visits of a run that has ended are those of its block visits, and these are all that it
counts but one that the cap refuses. -/
theorem Ends.log_and_visitsOf {r : Run V S} (h : a.Ends s r) (hacc : Accounts visits s) :
    r.state.log = (visits.flatMap (·.nodes)).toArray ∧
      ∀ b, r.state.visitsOf b = visits.countP (·.block.id = b) +
        if r.failure = some (.nonConvergence b (r.state.visitsOf b)) then 1 else 0 := by
  cases h with
  | finished _ => exact ⟨hacc.log, hacc.visitsOf⟩
  | cancelled _ _ => exact ⟨hacc.log, hacc.visitsOf⟩
  | @exceeded b rest _ _ =>
    refine ⟨hacc.log, fun b' => ?_⟩
    rw [← hacc.visitsOf]
    simp only [Solution.visitsOf, Table.get?_insert]
    by_cases hb : b' = b
    · simp [hb]
    · simp [hb, Ne.symm hb]

/-- The earlier one of two visits of a block began with a smaller state than the later one. -/
def Ascending (visits : List (BlockVisit V S)) : Prop :=
  visits.Pairwise fun v w => v.block.id = w.block.id → below v.entry w.entry ∧ v.entry ≠ w.entry

/-- No visit began with a state above the recorded one, and where a block waits, none began with the
recorded state itself. -/
structure Ascends (visits : List (BlockVisit V S)) (s : RunState V S) : Prop where
  ascending : Ascending visits
  recorded : ∀ v ∈ visits, ∃ x, s.before.get? v.block.id = some x ∧ below v.entry x ∧
    (v.block.id ∈ s.queue → v.entry ≠ x)

variable [Inspect S] (hS : Lawful S)

include hS

theorem Ascends.receive (h : Ascends visits s) (hinv : a.RunInv g visits s)
    (source target : BlockId) (state : S) :
    Ascends visits (s.receive a.config g source target state) where
  ascending := h.ascending
  recorded := fun v hv => by
    obtain ⟨x, hx, hbelow, hne⟩ := h.recorded v hv
    rw [RunState.get?_before_receive, hinv.queueInv.mem_receive_iff]
    by_cases hb : v.block.id = target
    · subst hb
      have hgrown := hS.recorded_below_merged a.config s state hx
      refine ⟨_, if_pos rfl, hS.below_trans hbelow hgrown, fun hwaits heq => ?_⟩
      rw [← heq] at hgrown
      obtain rfl := hS.below_antisymm hbelow hgrown
      rcases hwaits with hwaits | ⟨-, hchanged⟩
      · exact hne hwaits rfl
      · exact hchanged (heq ▸ hx)
    · refine ⟨x, by rw [if_neg hb, hx], hbelow, fun hwaits => hne ?_⟩
      exact hwaits.resolve_right fun h => hb h.1

theorem Ascends.opened (h : Ascends visits s) (hinv : a.RunInv g visits s) (hg : g.WellFormed)
    {v : BlockVisit V S} (hv : a.nextVisit? g s = some v) :
    Ascends (visits ++ [v]) (s.opened a.config v) := by
  have hnext := nextVisit_of_eq_some hg hv
  have hentry := hnext.entry
  obtain ⟨rest, hqueue⟩ := hnext.queue
  refine ⟨List.pairwise_append.2
    ⟨h.ascending, List.pairwise_singleton _ _, fun w hw v' hv' hb => ?_⟩, fun w hw => ?_⟩
  · obtain rfl := List.mem_singleton.1 hv'
    obtain ⟨x, hx, hbelow, hne⟩ := h.recorded w hw
    rw [hb, hentry, Option.some.injEq] at hx
    exact ⟨hx ▸ hbelow, hx ▸ hne (hb ▸ hnext.mem_queue)⟩
  · rcases List.mem_append.1 hw with hw | hw
    · obtain ⟨x, hx, hbelow, hne⟩ := h.recorded w hw
      exact ⟨x, hx, hbelow, fun hmem => hne (List.mem_of_mem_tail hmem)⟩
    · obtain rfl := List.mem_singleton.1 hw
      have hnodup := hqueue ▸ hinv.queueInv.nodup
      refine ⟨w.entry, hentry, hS.below_refl _, fun hmem => ?_⟩
      simp only [RunState.opened, hqueue, List.tail_cons] at hmem
      exact absurd hmem (List.nodup_cons.1 hnodup).1

theorem Reaches.ascends (hg : g.WellFormed) (h : a.Reaches g visits s) : Ascends visits s :=
  h.induction_runInv (P := Ascends) hg ⟨.nil, by simp⟩ (fun _ h => ⟨h.ascending, h.recorded⟩)
    (fun source target state hinv _ h => h.receive hS hinv source target state)
    (fun hinv hv h => h.opened hS hinv hg hv)
    (fun b h => ⟨h.ascending, by simpa using h.recorded⟩)

end Analysis

/-- Of two visits of a block, in a run however far it gets, the later one begins with a strictly
greater state. These are all the visits of the run: they make up its log, and the run counts no
other but one that the cap refuses. -/
theorem visits_ascend [Inspect S] (hS : Lawful S) {operations : List Operation} {g : Graph}
    (hg : Graph.build operations = .ok g) (a : Analysis V S) (fuel : Nat) :
    Analysis.Ascending (a.visitsFor g fuel) ∧
      ∀ r, a.runFor g fuel = some r →
        r.state.log = ((a.visitsFor g fuel).flatMap (·.nodes)).toArray ∧
        ∀ b, r.state.visitsOf b = (a.visitsFor g fuel).countP (·.block.id = b) +
          if r.failure = some (.nonConvergence b (r.state.visitsOf b)) then 1 else 0 := by
  have hwf := wellFormed_of_build hg
  rcases Analysis.exists_reaches_visitsFor (a := a) hwf fuel with ⟨b, hvisits, hr⟩ | ⟨s, hs, hends⟩
  · rw [hvisits]
    refine ⟨.nil, fun r hr' => ?_⟩
    obtain rfl := Option.some.inj (hr.symm.trans hr')
    exact ⟨rfl, fun _ => rfl⟩
  · exact ⟨(hs.ascends hS hwf).ascending, fun r hr => (hends r hr).log_and_visitsOf hs.accounts⟩

/-- Counting up without a limit is stopped at the fourth visit of the loop's head, which has begun
with more each time. -/
theorem visits_ascend_countingLoop :
    let a := countingFromZero none { maxBlockVisits := some 3 }
    ∃ g, Graph.build countingLoop = .ok g ∧
      (a.runFor g 30).any (·.failure = some (.nonConvergence 3 4)) ∧
      ((a.visitsFor g 30).filter (·.block.id = 3)).map (·.entry) = [⟨0⟩, ⟨2⟩, ⟨4⟩] ∧
      Analysis.Ascending (a.visitsFor g 30) ∧
      ∀ r, a.runFor g 30 = some r →
        r.state.log = ((a.visitsFor g 30).flatMap (·.nodes)).toArray ∧
        ∀ b, r.state.visitsOf b = (a.visitsFor g 30).countP (·.block.id = b) +
          if r.failure = some (.nonConvergence b (r.state.visitsOf b)) then 1 else 0 := by
  intro a
  exact ⟨_, build_countingLoop, by decide +kernel, by decide +kernel,
    visits_ascend Counter.lawful build_countingLoop a 30⟩

end Dataflow
