import Dataflow.Proofs.Edge

/-!
# Passes side by side

Passes over one block from several states, each with its own values, visit the same nodes. If a
transfer function keeps a relation between their states at every node, and one between the values
that it reads (`Transfer.Respects`), then all that the passes come to is in the relation: the states
at their nodes (`Respects.exists_visits`) and what the block sends along an edge (`Respects.sent`).
A relation of one state is an invariant.
-/

namespace Dataflow

variable {ι V S : Type}

/-- A relation between the states of several passes, and one between their values of a node. -/
structure Correspondence (ι V S : Type) where
  state : (ι → S) → Prop
  value : NodeId → (ι → Option V) → Prop

def Graph.IsCondition (g : Graph) (n : Node) : Prop :=
  ∃ block ∈ g.block? n.block, block.kind = .conditional

instance (g : Graph) (n : Node) : Decidable (g.IsCondition n) :=
  inferInstanceAs (Decidable (∃ block ∈ g.block? n.block, block.kind = .conditional))

/-- What the nodes of a block read lies in the block, or its values are in the relation when the
block is entered. -/
def Correspondence.Offered (R : Correspondence ι V S) (g : Graph) (reads : Node → NodeId → Prop)
    (block : Block) (values : ι → Table V) : Prop :=
  ∀ n ∈ g.nodesOf block, ∀ o, reads n o →
    (o ∈ n.kind.operands ∧ ∃ m, g.node? o = some m ∧ m.block = n.block) ∨
      R.value o fun i => (values i).get? o

variable [DecidableEq S] [AbstractDomain S]

namespace Correspondence

variable (R : Correspondence ι V S) (g : Graph) (n : Node)

/-- The results of a node, from states in the relation, are in it. The outcomes of a test are only
told apart at a condition. -/
structure Results (states : ι → S) (results : ι → NodeResult V S) : Prop where
  value : R.value n.id fun i => some (results i).value
  joined : R.state fun i => (results i).outflow.joined
  thenState : g.IsCondition n → R.state fun i => (results i).outflow.thenState
  elseState : g.IsCondition n → R.state fun i => (results i).outflow.elseState
  thrown : ∀ e, R.state fun i => ((results i).thrown.get? e).getD (states i)

structure Visits (visits : ι → NodeVisit V S) : Prop where
  node : ∀ i, (visits i).node = n
  state : R.state fun i => (visits i).state
  results : R.Results g n (fun i => (visits i).state) fun i => (visits i).result

variable {R g n}

theorem Results.of_single {states : ι → S} {values : ι → V} (hstates : R.state states)
    (hvalue : R.value n.id fun i => some (values i)) {next : ι → S} (hnext : R.state next) :
    R.Results g n states fun i => .single (values i) (next i) :=
  ⟨hvalue, hnext, fun _ => hnext, fun _ => hnext, fun _ => hstates⟩

theorem Results.of_split {states : ι → S} {values : ι → V} (hstates : R.state states)
    (hvalue : R.value n.id fun i => some (values i)) {thenStates elseStates : ι → S}
    (hthen : R.state thenStates) (helse : R.state elseStates)
    (hjoined : R.state fun i => join (thenStates i) (elseStates i)) :
    R.Results g n states fun i => .split (values i) (thenStates i) (elseStates i) :=
  ⟨hvalue, hjoined, fun _ => hthen, fun _ => helse, fun _ => hstates⟩

theorem Visits.atThrow {visits : ι → NodeVisit V S} (h : R.Visits g n visits) (e : ExceptionType) :
    R.state fun i => (visits i).atThrow e :=
  h.results.thrown e

end Correspondence

/-- A transfer function keeps a relation, if what it reads of other nodes is in it. -/
structure Transfer.Respects (t : Transfer V S) (g : Graph) (reads : Node → NodeId → Prop)
    (R : Correspondence ι V S) : Prop where
  join : ∀ {states states'}, R.state states → R.state states' →
    R.state fun i => join (states i) (states' i)
  visit : ∀ n ∈ g.nodes, ∀ {states} {values : ι → Table V}, R.state states →
    (∀ o, reads n o → R.value o fun i => (values i).get? o) →
    R.Results g n states fun i => t.visit ⟨n, g.nodes, states i, values i⟩

namespace Transfer.Respects

variable {t : Transfer V S} {g : Graph} {reads : Node → NodeId → Prop} {R : Correspondence ι V S}
  (h : t.Respects g reads R)

include h

/-- The passes, node by node. What a node reads is the value of a node before it, or in the tables
that the passes start with. -/
theorem exists_visits : ∀ (ns : List Node) (values : ι → Table V) {states : ι → S},
    (∀ n ∈ ns, n ∈ g.nodes) → R.state states →
    (∀ pre n post, ns = pre ++ n :: post → ∀ o, reads n o →
      o ∈ pre.map Node.id ∨ R.value o fun i => (values i).get? o) →
    ∃ visits : List (ι → NodeVisit V S),
      (∀ i, visits.map (· i) = t.pass g.nodes (values i) (states i) ns) ∧
      ∀ F ∈ visits, ∃ n ∈ ns, R.Visits g n F
  | [], _, _, _, _, _ => ⟨[], fun _ => rfl, by simp⟩
  | n :: rest, values, states, hmem, hstates, hreads => by
    let first : ι → NodeVisit V S := fun i => t.visitNode g.nodes (values i) (states i) n
    have hfirst : R.Visits g n first := by
      refine ⟨fun _ => rfl, hstates, h.visit n (hmem n List.mem_cons_self) hstates fun o ho => ?_⟩
      simpa using hreads [] n rest rfl o ho
    obtain ⟨visits, hvisits, hrest⟩ := exists_visits rest
      (fun i => (values i).insert n.id (first i).result.value)
      (fun m hm => hmem m (List.mem_cons_of_mem _ hm)) hfirst.results.joined
      (fun pre m post heq o ho => by
        by_cases hon : o = n.id
        · subst hon
          exact .inr (by simpa using hfirst.results.value)
        · have hread := hreads (n :: pre) m post (by rw [heq, List.cons_append]) o ho
          refine hread.imp (fun hpre => ?_) fun hvalue => ?_
          · simpa [hon] using hpre
          · simpa only [Table.get?_insert_ne _ _ hon] using hvalue)
    refine ⟨first :: visits, fun i => ?_, ?_⟩
    · rw [List.map_cons, hvisits i]
      rfl
    · rintro F (_ | ⟨_, hF⟩)
      · exact ⟨n, List.mem_cons_self, hfirst⟩
      · obtain ⟨m, hm, hF⟩ := hrest F hF
        exact ⟨m, List.mem_cons_of_mem _ hm, hF⟩

theorem foldl_join (e : ExceptionType) : ∀ {visits : List (ι → NodeVisit V S)} {states : ι → S},
    R.state states → (∀ F ∈ visits, ∃ n, R.Visits g n F) →
    R.state fun i => (visits.map fun F => (F i).atThrow e).foldl AbstractDomain.join (states i)
  | [], _, hstates, _ => hstates
  | F :: rest, _, hstates, hvisits => by
    obtain ⟨⟨n, hF⟩, hrest⟩ := List.forall_mem_cons.1 hvisits
    have hnext := h.join hstates (hF.atThrow e)
    exact (foldl_join e hnext hrest :)

section Outcomes

variable {states : ι → S} {visits : List (ι → NodeVisit V S)} (hstates : R.state states)

include hstates

theorem thrownState (hvisits : ∀ F ∈ visits, ∃ n, R.Visits g n F) (e : ExceptionType) :
    R.state fun i => Pass.thrownState (states i) (visits.map (· i)) e := by
  cases visits with
  | nil => exact hstates
  | cons first rest =>
    obtain ⟨⟨n, hfirst⟩, hrest⟩ := List.forall_mem_cons.1 hvisits
    simpa [Pass.thrownState, Function.comp_def] using h.foldl_join e (hfirst.atThrow e) hrest

omit h in
theorem finalState (hvisits : ∀ F ∈ visits, ∃ n, R.Visits g n F) :
    R.state fun i => Pass.finalState (states i) (visits.map (· i)) := by
  simp only [Pass.finalState, List.getLast?_map]
  rcases hlast : visits.getLast? with _ | F
  · exact hstates
  · obtain ⟨n, hF⟩ := hvisits F (List.mem_of_getLast? hlast)
    exact hF.results.joined

omit h [DecidableEq S] [AbstractDomain S] in
theorem branches (hvisits : ∀ F ∈ visits, (R.state fun i => (F i).result.outflow.thenState) ∧
      R.state fun i => (F i).result.outflow.elseState) :
    (R.state fun i => (Pass.branches (states i) (visits.map (· i))).1) ∧
      R.state fun i => (Pass.branches (states i) (visits.map (· i))).2 := by
  simp only [Pass.branches, List.getLast?_map]
  rcases hlast : visits.getLast? with _ | F
  · exact ⟨hstates, hstates⟩
  · exact hvisits F (List.mem_of_getLast? hlast)

omit hstates in
theorem select [Nonempty ι] (rule : FlowRule) (branch : Branch) {thenStates elseStates out : ι → S}
    (hthen : R.state thenStates) (helse : R.state elseStates)
    (hout : ∀ i, rule.select branch (thenStates i) (elseStates i) = some (out i)) :
    R.state out := by
  rcases rule.select_cases branch (S := S) with hselect | hselect | hselect | hselect <;>
    simp only [hselect] at hout
  · exact (Option.some_ne_none _ (hout (Classical.arbitrary ι)).symm).elim
  · rwa [show out = _ from funext fun i => (Option.some.inj (hout i)).symm]
  · rwa [show out = _ from funext fun i => (Option.some.inj (hout i)).symm]
  · rw [show out = _ from funext fun i => (Option.some.inj (hout i)).symm]
    exact h.join hthen helse

/-- What travels along an edge is in the relation, and so along a branch if the outcomes are. -/
theorem sent_of_visits [Nonempty ι] {shape : BlockShape}
    (hvisits : ∀ F ∈ visits, ∃ n, R.Visits g n F)
    (houtcomes : shape.kind = .conditional → ∀ F ∈ visits,
      (R.state fun i => (F i).result.outflow.thenState) ∧
        R.state fun i => (F i).result.outflow.elseState)
    {e : Edge} {target : BlockId} (he : (e, target) ∈ shape.edges) {out : ι → S}
    (hout : ∀ i, Pass.sent shape (states i) (visits.map (· i)) e = some (out i)) :
    R.state out := by
  cases e with
  | normal =>
    rw [show out = _ from funext fun i => (Option.some.inj (hout i)).symm]
    exact finalState hstates hvisits
  | handler e =>
    rw [show out = _ from funext fun i => (Option.some.inj (hout i)).symm]
    exact h.thrownState hstates hvisits e
  | branch branch =>
    obtain ⟨condition, thenEdge, elseEdge, hshape⟩ :=
      BlockShape.eq_conditional_of_branch_mem_edges he
    obtain ⟨hthen, helse⟩ := branches hstates (houtcomes (by rw [hshape]; rfl))
    simp only [Pass.sent] at hout
    rcases hrule : shape.rule? branch with _ | rule <;> rw [hrule] at hout
    · exact (Option.some_ne_none _ (hout (Classical.arbitrary ι)).symm).elim
    · exact h.select rule branch hthen helse hout

end Outcomes

/-! ## A block -/

section Block

variable (hg : g.WellFormed) {b : BlockId} {block : Block} (hb : g.block? b = some block)
  {values : ι → Table V} {states : ι → S} (hstates : R.state states)
  (hoffered : R.Offered g reads block values)

include hg hb hstates hoffered

theorem exists_blockVisits :
    ∃ visits : List (ι → NodeVisit V S),
      (∀ i, visits.map (· i) = t.pass g.nodes (values i) (states i) (g.nodesOf block)) ∧
      (∀ F ∈ visits, ∃ n, R.Visits g n F) ∧
      (block.kind = .conditional → ∀ F ∈ visits,
        (R.state fun i => (F i).result.outflow.thenState) ∧
          R.state fun i => (F i).result.outflow.elseState) := by
  obtain ⟨visits, hpass, hvisits⟩ := h.exists_visits (g.nodesOf block) values
    (fun n hn => Array.mem_of_getElem? ((hg.mem_nodesOf_iff hb).1 hn).1) hstates
    fun pre n post heq o ho =>
      (hoffered n (by simp [heq]) o ho).imp_left fun ⟨hmem, m, hm, hmb⟩ =>
        hg.operand_mem_of_append hb heq hmem hm hmb
  refine ⟨visits, hpass, fun F hF => (hvisits F hF).imp fun _ => And.right, fun hkind F hF => ?_⟩
  obtain ⟨n, hn, hF⟩ := hvisits F hF
  obtain ⟨-, hnb⟩ := (hg.mem_nodesOf_iff hb).1 hn
  have hcondition : g.IsCondition n := ⟨block, hnb ▸ hb, hkind⟩
  exact ⟨hF.results.thenState hcondition, hF.results.elseState hcondition⟩

theorem outflow_pass :
    (R.state fun i => (Pass.outflow block.shape (states i)
      (t.pass g.nodes (values i) (states i) (g.nodesOf block))).thenState) ∧
      R.state fun i => (Pass.outflow block.shape (states i)
        (t.pass g.nodes (values i) (states i) (g.nodesOf block))).elseState := by
  obtain ⟨visits, hpass, hvisits, houtcomes⟩ := h.exists_blockVisits hg hb hstates hoffered
  simp only [← hpass]
  have hfinal := finalState hstates hvisits
  rcases hshape : block.shape with next | _ | _ | ⟨nodes, next⟩ | ⟨condition, thenEdge, elseEdge⟩ |
    ⟨nodes, next, handlers⟩
  case conditional => exact branches hstates (houtcomes (by rw [Block.kind, hshape]; rfl))
  all_goals exact ⟨hfinal, hfinal⟩

/-- What a block sends along an edge is in the relation. -/
theorem sent [Nonempty ι] {e : Edge} {target : BlockId} (he : (e, target) ∈ block.shape.edges)
    {out : ι → S}
    (hout : ∀ i, Pass.sent block.shape (states i)
      (t.pass g.nodes (values i) (states i) (g.nodesOf block)) e = some (out i)) :
    R.state out := by
  obtain ⟨visits, hpass, hvisits, houtcomes⟩ := h.exists_blockVisits hg hb hstates hoffered
  simp only [← hpass] at hout
  exact h.sent_of_visits hstates hvisits houtcomes he hout

end Block

end Transfer.Respects

end Dataflow
