import Dataflow.Checker.Identity
import Dataflow.Proofs.LivePart
import Dataflow.Proofs.Reevaluation

/-!
# Visits by default

A visitor with no function of its own leaves every state as it is and knows no value. If the initial
state is below itself and is its own join with itself, then no other state comes to any block
(`Reaches.keeps_initial`), so that nothing is recorded twice and a run visits every live block once
(`initial_everywhere_of_visitsByDefault`).
-/

namespace Dataflow

variable {V S : Type} [DecidableEq V] [ValueDomain V]

theorem Visitor.visit_default (i : NodeInput V S) : ({} : Visitor V S).visit i = i.unchanged := by
  obtain ⟨⟨id, block, kind⟩, nodes, state, values⟩ := i
  cases kind <;> rfl

/-- Every node is visited in the way that its kind is visited by default. -/
def Transfer.VisitsByDefault (t : Transfer V S) : Prop :=
  t.visit = ({} : Visitor V S).visit

variable [DecidableEq S] [AbstractDomain S]

/-- What a block comes to if it is entered in this state and no node changes the state. -/
def Block.outflowOf (block : Block) (state : S) : Outflow S :=
  if block.kind = .conditional then .split state state else .single state

/-- The state is this one. -/
def Correspondence.steady (V : Type) (state : S) : Correspondence Unit V S where
  state states := states () = state
  value _ _ := True

namespace Transfer.VisitsByDefault

variable {t : Transfer V S} (h : t.VisitsByDefault) {state : S}

include h

omit [DecidableEq S] [AbstractDomain S] in
theorem visit_eq (i : NodeInput V S) : t.visit i = .single top i.state := by
  rw [h, Visitor.visit_default]
  rfl

theorem respects (hjoin : join state state = state) (g : Graph) :
    t.Respects g (fun _ _ => False) (.steady V state) where
  join := by
    rintro states states' (hstates : states () = state) (hstates' : states' () = state)
    change join (states ()) (states' ()) = state
    rw [hstates, hstates', hjoin]
  visit := by
    intro n _ states values hstates _
    simp only [h.visit_eq]
    exact .of_single hstates trivial hstates

theorem value_of_mem_pass {nodes : Array Node} {values : Table V} {ns : List Node}
    {w : NodeVisit V S} (hw : w ∈ t.pass nodes values state ns) : w.result.value = top := by
  obtain ⟨values', hvisit⟩ := exists_eq_visitNode_of_mem_pass t hw
  rw [hvisit, Transfer.visitNode, h.visit_eq]
  rfl

variable (hjoin : join state state = state) {g : Graph} (hg : g.WellFormed) {b : BlockId}
  {block : Block} (hb : g.block? b = some block) (values : Table V)

omit [DecidableEq V] [ValueDomain V] [DecidableEq S] [AbstractDomain S] h in
theorem offered_steady (block : Block) (values : Table V) :
    (Correspondence.steady V state).Offered g (fun _ _ => False) block fun _ => values :=
  fun _ _ _ ho => ho.elim

include hjoin hg hb

theorem sent_pass {e : Edge} {target : BlockId} (he : (e, target) ∈ block.shape.edges) {out : S}
    (hout : Pass.sent block.shape state (t.pass g.nodes values state (g.nodesOf block)) e =
      some out) : out = state := by
  have hstate : (Correspondence.steady V state).state fun _ => state := rfl
  exact (h.respects hjoin g).sent hg hb hstate (offered_steady block values) he fun _ => hout

theorem outflow_pass :
    Pass.outflow block.shape state (t.pass g.nodes values state (g.nodesOf block)) =
      block.outflowOf state := by
  have hstate : (Correspondence.steady V state).state fun _ => state := rfl
  obtain ⟨hthen, helse⟩ :=
    (h.respects hjoin g).outflow_pass hg hb hstate (offered_steady block values)
  revert hthen helse
  unfold Block.outflowOf Block.kind
  cases block.shape with
  | conditional condition thenEdge elseEdge =>
    intro hthen helse
    exact congrArg₂ Outflow.split hthen helse
  | _ =>
    intro hthen _
    exact congrArg Outflow.single hthen

end Transfer.VisitsByDefault

/-! ## Runs -/

namespace Analysis

variable {a : Analysis V S} {g : Graph} {visits : List (BlockVisit V S)} {s : RunState V S}
  (h : a.transfer.VisitsByDefault)
  (hjoin : join (a.transfer.initial g) (a.transfer.initial g) = a.transfer.initial g)
  (hbelow : AbstractDomain.below (a.transfer.initial g) (a.transfer.initial g))
  (hg : g.WellFormed)

include h hjoin hbelow hg

/-- The initial state is recorded wherever anything is, and it stays as it has been recorded. -/
theorem Reaches.keeps_initial (hs : a.Reaches g visits s) :
    s.Keeps (fun _ updates x => updates = 0 ∧ x = a.transfer.initial g) ∧
      ∀ v ∈ visits, v.entry = a.transfer.initial g := by
  have hkept := hs.recorded_induction hg
    (P := fun _ updates x => updates = 0 ∧ x = a.transfer.initial g)
    (A := fun _ x => x = a.transfer.initial g) rfl (fun hx => ⟨rfl, hx⟩) ?_ ?_
  · exact ⟨hkept.1, fun v hv => (hkept.2 v hv).elim fun _ hx => hx.2⟩
  · rintro b k x y ⟨-, rfl⟩ rfl hnot _
    rw [hbelow] at hnot
    cases hnot
  · intro visits s v k _ hv hentry e target he state hsent
    have hnext := nextVisit_of_eq_some hg hv
    rw [BlockVisit.sent, hnext.nodes, hentry.2] at hsent
    exact h.sent_pass hjoin hg hnext.block _ he hsent

theorem Reaches.updatesOf_eq_zero (hs : a.Reaches g visits s) (b : BlockId) :
    s.updatesOf b = 0 :=
  Nat.le_zero.1 <| (hs.keeps_initial h hjoin hbelow hg).1.updatesOf_le
    (fun hx => Nat.le_of_eq hx.1) b

theorem Reaches.countP_le_one (hs : a.Reaches g visits s) (b : BlockId) :
    visits.countP (·.block.id = b) ≤ 1 := by
  have hvisits := hs.visits_le_updates hg b
  rw [hs.updatesOf_eq_zero h hjoin hbelow hg] at hvisits
  grind

/-- What a run that has come to rest holds of a block that it has visited. -/
theorem Reaches.results_of_lastVisit? (hs : a.Reaches g visits s) (hqueue : s.queue = [])
    {b : BlockId} {v : BlockVisit V S} (hv : lastVisit? visits b = some v) :
    s.visitsOf b = 1 ∧ s.stateBefore? b = some (a.transfer.initial g) ∧
      s.outflow? b = some (v.block.outflowOf (a.transfer.initial g)) ∧
      ∀ n ∈ v.block.nodes, s.value? n = some top := by
  obtain ⟨hmem, rfl⟩ := mem_of_lastVisit?_eq_some hv
  have hinv := hs.runInv hg
  have hblock := hinv.visited_block v hmem
  have hentry := (hs.keeps_initial h hjoin hbelow hg).2 v hmem
  obtain ⟨values, hnodes⟩ := hinv.visited_nodes v hmem
  rw [hentry] at hnodes
  refine ⟨?_, ?_, ?_, fun n hn => ?_⟩
  · have hpos := isSome_lastVisit?_iff.1 (Option.isSome_iff_exists.2 ⟨v, hv⟩)
    rw [hs.accounts.visitsOf]
    exact Nat.le_antisymm (hs.countP_le_one h hjoin hbelow hg _) hpos
  · rw [hinv.stateBefore?_eq hqueue, hv, ← hentry]
    rfl
  · rw [Solution.outflow?, hs.accounts.after, hv, ← h.outflow_pass hjoin hg hblock values, ← hnodes,
      ← hentry]
    rfl
  · rw [← hg.map_id_nodesOf hblock, ← hinv.nodes_eq hmem, List.map_map] at hn
    obtain ⟨w, hw, rfl⟩ := List.mem_map.1 hn
    rw [← h.value_of_mem_pass (hnodes ▸ hw)]
    exact hs.value?_of_mem hg hv hw

end Analysis

/-- A run with nothing but visits by default finds a solution. It visits every block that a live
path leads to once, with the initial state before and after it and values that are unknown, and no
other block. -/
theorem initial_everywhere_of_visitsByDefault {operations : List Operation} {g : Graph}
    (hbuild : Graph.build operations = .ok g) {a : Analysis V S}
    (hdefault : a.transfer.VisitsByDefault) (hfree : a.Unhindered 1)
    (hjoin : join (a.transfer.initial g) (a.transfer.initial g) = a.transfer.initial g)
    (hbelow : below (a.transfer.initial g) (a.transfer.initial g)) :
    a.ConvergesWithin g 1 ∧
      ∀ fuel r sol, a.runFor g fuel = some r → r.result = .ok sol →
        ∀ b block, g.block? b = some block →
          ((∃ path, g.LivePath path b) →
            sol.visitsOf b = 1 ∧ sol.stateBefore? b = some (a.transfer.initial g) ∧
              sol.outflow? b = some (block.outflowOf (a.transfer.initial g)) ∧
              ∀ n ∈ block.nodes, sol.value? n = some top) ∧
          ((¬∃ path, g.LivePath path b) →
            sol.visitsOf b = 0 ∧ sol.stateBefore? b = none ∧ sol.outflow? b = none) := by
  have hg := wellFormed_of_build hbuild
  refine ⟨Analysis.convergesWithin_of_updatesOf_le hg
    (fun hs b => Nat.le_of_eq (hs.updatesOf_eq_zero hdefault hjoin hbelow hg b)) hfree,
    fun fuel r sol hr hsol b block hb => ?_⟩
  obtain ⟨s, hs, hqueue, rfl⟩ := Analysis.reaches_of_result_eq_ok hg hr hsol
  have hinv := hs.runInv hg
  have hlast := hinv.isSome_stateBefore? hqueue b
  rw [← hs.isSome_before_iff hg hqueue b, ← Solution.stateBefore?, hlast]
  rcases hv : lastVisit? (a.visitsFor g fuel) b with _ | v
  · rw [hv] at hlast
    refine ⟨nofun, fun _ => ⟨?_, Option.not_isSome_iff_eq_none.1 (by rw [hlast]; nofun), ?_⟩⟩
    · rw [hs.accounts.visitsOf, ← Nat.le_zero, ← Nat.not_lt, ← isSome_lastVisit?_iff, hv]
      exact Bool.false_ne_true
    · rw [Solution.outflow?, hs.accounts.after, hv]
      rfl
  · obtain ⟨hmem, rfl⟩ := mem_of_lastVisit?_eq_some hv
    obtain rfl : v.block = block := Option.some.inj ((hinv.visited_block v hmem).symm.trans hb)
    exact ⟨fun _ => hs.results_of_lastVisit? hdefault hjoin hbelow hg hqueue hv,
      fun hdead => absurd rfl hdead⟩

/-- The identity checker visits a loop and what comes after it once each, however it widens. -/
theorem initial_everywhere_rereadLoop :
    let a : Analysis Constant (VarStore Constant) :=
      { transfer := IdentityChecker.transfer
        config := { maxBlockVisits := some 1, widening := .always, order := .fifo } }
    ∃ g r sol, Graph.build rereadLoop = .ok g ∧ a.transfer.VisitsByDefault ∧ a.Unhindered 1 ∧
      join (a.transfer.initial g) (a.transfer.initial g) = a.transfer.initial g ∧
      below (a.transfer.initial g) (a.transfer.initial g) ∧ a.ConvergesWithin g 1 ∧
      a.runFor g 10 = some r ∧ r.result = .ok sol ∧ g.LivePath [(3, .normal), (0, .normal)] 4 ∧
      sol.visitsOf 4 = 1 ∧ sol.stateBefore? 4 = some (a.transfer.initial g) ∧
      sol.outflow? 4 = some (.split (a.transfer.initial g) (a.transfer.initial g)) ∧
      sol.value? 3 = some top := by
  intro a
  have hlawful : Lawful (VarStore Constant) := VarStore.lawful Flat.lawful
  have hfree : a.Unhindered 1 := ⟨rfl, fun _ => rfl, fun hcap => (Option.some.inj hcap).le⟩
  have hjoin := hlawful.join_self (a.transfer.initial rereadLoopGraph)
  have hbelow := hlawful.below_refl (a.transfer.initial rereadLoopGraph)
  obtain ⟨hconverges, hruns⟩ :=
    initial_everywhere_of_visitsByDefault build_rereadLoop (a := a) rfl hfree hjoin hbelow
  obtain ⟨r, sol, hr, hsol, -⟩ := hconverges 10 (by decide)
  have hlive : rereadLoopGraph.LivePath [(3, .normal), (0, .normal)] 4 :=
    (Graph.LivePath.entry.step (e := .normal) rfl (by decide) rfl).step rfl (by decide) rfl
  obtain ⟨hvisits, hbefore, hafter, hvalues⟩ := (hruns 10 r sol hr hsol 4 _ rfl).1 ⟨_, hlive⟩
  exact ⟨_, r, sol, build_rereadLoop, rfl, hfree, hjoin, hbelow, hconverges, hr, hsol, hlive,
    hvisits, hbefore, hafter, hvalues 3 (by decide)⟩

end Dataflow
