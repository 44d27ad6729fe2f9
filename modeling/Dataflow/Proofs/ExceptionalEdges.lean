import Dataflow.Proofs.PostFixpoint
import Dataflow.Proofs.Visited

/-!
# Exceptional edges

A visit of an exceptional block goes from state to state (`BlockVisit.stateAt`), and an exception
may leave the block at every node (`BlockVisit.throwAt`). What a handler is sent is the join of the
states in which its exception may do so, in turn, and what the nodes throw of other types is sent
nowhere (`exceptional_edges`).
-/

namespace Dataflow

variable {V S : Type}

/-! ## Exceptions without a handler -/

namespace ExceptionMap

variable {α : Type} (types : List ExceptionType)

/-- The bindings of these types. -/
def restrict (m : ExceptionMap α) : ExceptionMap α where
  entries := m.entries.filter (·.1 ∈ types)
  distinct := m.distinct.sublist (List.filter_sublist.map _)

theorem lookup_filter {e : ExceptionType} (he : e ∈ types) :
    ∀ entries : List (ExceptionType × α), lookup e (entries.filter (·.1 ∈ types)) = lookup e entries
  | [] => rfl
  | (other, a) :: rest => by
    have ih := lookup_filter he rest
    rw [List.filter_cons]
    by_cases hother : other ∈ types
    · rw [if_pos (decide_eq_true hother), lookup, lookup, ih]
    · have hne : e ≠ other := fun heq => hother (heq ▸ he)
      rw [if_neg (by simpa using hother), ih, lookup, if_neg hne]

theorem get?_restrict (m : ExceptionMap α) {e : ExceptionType} (he : e ∈ types) :
    (m.restrict types).get? e = m.get? e :=
  lookup_filter types he m.entries

end ExceptionMap

/-- The visit without what it throws of other types. -/
def NodeVisit.throwingOnly (types : List ExceptionType) (w : NodeVisit V S) : NodeVisit V S :=
  { w with result := { w.result with thrown := w.result.thrown.restrict types } }

theorem NodeVisit.atThrow_throwingOnly {types : List ExceptionType} {e : ExceptionType}
    (he : e ∈ types) (w : NodeVisit V S) : (w.throwingOnly types).atThrow e = w.atThrow e := by
  rw [atThrow, atThrow, throwingOnly, ExceptionMap.get?_restrict types _ he]

section Sendings

variable [DecidableEq S] [AbstractDomain S]

namespace Pass

theorem finalState_map_throwingOnly (types : List ExceptionType) (entry : S)
    (visits : List (NodeVisit V S)) :
    finalState entry (visits.map (NodeVisit.throwingOnly types)) = finalState entry visits := by
  unfold finalState
  rw [List.getLast?_map]
  cases visits.getLast? <;> rfl

theorem thrownState_map_throwingOnly {types : List ExceptionType} {e : ExceptionType}
    (he : e ∈ types) (entry : S) (visits : List (NodeVisit V S)) :
    thrownState entry (visits.map (NodeVisit.throwingOnly types)) e =
      thrownState entry visits e := by
  have hthrow : NodeVisit.atThrow e ∘ NodeVisit.throwingOnly types =
      (NodeVisit.atThrow e : NodeVisit V S → S) :=
    funext (NodeVisit.atThrow_throwingOnly he)
  rw [thrownState, List.map_map, hthrow, ← thrownState]

end Pass

theorem Sending.all_map_throwingOnly {ids : List NodeId} {next : BlockId}
    {handlers : ExceptionMap BlockId} (entry : S) (visits : List (NodeVisit V S)) :
    all (.exceptional ids next handlers) entry
        (visits.map (NodeVisit.throwingOnly handlers.types)) =
      all (.exceptional ids next handlers) entry visits := by
  simp only [all, Pass.finalState_map_throwingOnly, List.cons.injEq, true_and]
  refine List.map_congr_left fun handler hmem => ?_
  have he : handler.1 ∈ handlers.types := List.mem_map_of_mem hmem
  rw [Pass.thrownState_map_throwingOnly he]

/-! ## From state to state -/

namespace BlockVisit

variable (v : BlockVisit V S)

/-- The state after so many nodes. -/
def stateAt : Nat → S
  | 0 => v.entry
  | i + 1 => (v.nodes[i]?.map (·.result.outflow.joined)).getD v.entry

/-- The state in which an exception leaves the node after so many nodes: the one that its result
has for it, or the state before the node. -/
def throwAt (e : ExceptionType) (i : Nat) : S :=
  (v.nodes[i]?.bind (·.result.thrown.get? e)).getD (v.stateAt i)

/-- The join, from the left, of the states in which an exception leaves so many nodes; without a
node the state at the entry. -/
def thrownAfter (e : ExceptionType) : Nat → S
  | 0 => v.entry
  | 1 => v.throwAt e 0
  | i + 2 => join (thrownAfter e (i + 1)) (v.throwAt e (i + 1))

/-- What goes to the normal successor, and then to the handlers. -/
def sendings (next : BlockId) (handlers : ExceptionMap BlockId) : List (Sending S) :=
  .normal next (v.stateAt v.nodes.length) ::
    handlers.entries.map fun (e, target) => .thrown e target (v.thrownAfter e v.nodes.length)

variable {v}

theorem finalState_take : ∀ {i : Nat}, i ≤ v.nodes.length →
    Pass.finalState v.entry (v.nodes.take i) = v.stateAt i
  | 0, _ => rfl
  | i + 1, hi => by
    rw [← List.take_append_getElem hi, Pass.finalState_concat, stateAt,
      List.getElem?_eq_getElem hi]
    rfl

section Pass

variable {t : Transfer V S} {nodes : Array Node} {values : Table V} {ns : List Node}
  (h : v.nodes = t.pass nodes values v.entry ns)

include h

theorem getElem?_nodes {i : Nat} {w : NodeVisit V S} (hw : v.nodes[i]? = some w) :
    w = t.visitNode nodes (Pass.valuesAfter values (v.nodes.take i)) (v.stateAt i) w.node := by
  obtain ⟨hi, rfl⟩ := List.getElem?_eq_some_iff.1 hw
  have hsplit : v.nodes = v.nodes.take i ++ v.nodes[i] :: v.nodes.drop (i + 1) := by
    rw [← List.drop_eq_getElem_cons hi, List.take_append_drop]
  rw [← finalState_take (Nat.le_of_lt hi)]
  exact Pass.eq_visitNode_of_pass_eq_append t (h.symm.trans hsplit)

theorem atThrow_getElem {i : Nat} (hi : i < v.nodes.length) (e : ExceptionType) :
    v.nodes[i].atThrow e = v.throwAt e i := by
  have hw := List.getElem?_eq_getElem hi
  have hstate := congrArg NodeVisit.state (getElem?_nodes h hw)
  rw [NodeVisit.atThrow, throwAt, hw, hstate]
  rfl

theorem thrownState_take (e : ExceptionType) : ∀ {i : Nat}, i ≤ v.nodes.length →
    Pass.thrownState v.entry (v.nodes.take i) e = v.thrownAfter e i
  | 0, _ => rfl
  | i + 1, hi => by
    rw [← List.take_append_getElem hi, Pass.thrownState_concat, atThrow_getElem h hi]
    -- the state of the first node stands alone, that of the entry is not joined with it
    cases i with
    | zero => rfl
    | succ i =>
      have hne : v.nodes.take (i + 1) ≠ [] := List.ne_nil_of_length_pos (by simp; omega)
      rw [if_neg hne, thrownState_take e (Nat.le_of_lt hi), thrownAfter]

theorem thrownState_nodes (e : ExceptionType) :
    Pass.thrownState v.entry v.nodes e = v.thrownAfter e v.nodes.length := by
  rw [← thrownState_take h e (Nat.le_refl _), List.take_length]

omit h in
theorem finalState_nodes : Pass.finalState v.entry v.nodes = v.stateAt v.nodes.length := by
  rw [← finalState_take (Nat.le_refl _), List.take_length]

theorem all_eq_sendings {ids : List NodeId} {next : BlockId} {handlers : ExceptionMap BlockId} :
    Sending.all (.exceptional ids next handlers) v.entry v.nodes = v.sendings next handlers := by
  simp only [Sending.all, sendings, finalState_nodes, thrownState_nodes h]

end Pass

/-- What is joined for a handler is above every state in which its exception leaves a node. -/
theorem below_thrownAfter [Inspect S] (hS : Lawful S) (e : ExceptionType) :
    ∀ {i k : Nat}, i < k → below (v.throwAt e i) (v.thrownAfter e k)
  | i, 1, hi => by
    obtain rfl := Nat.lt_one_iff.1 hi
    exact hS.below_refl _
  | i, k + 2, hi => by
    rcases Nat.lt_succ_iff_lt_or_eq.1 hi with hlt | rfl
    · exact hS.below_trans (below_thrownAfter hS e hlt) (hS.below_join_left _ _)
    · exact hS.below_join_right _ _

end BlockVisit

theorem RunState.findings_visited (c : AnalysisConfig) (g : Graph) (s : RunState V S)
    (v : BlockVisit V S) : (s.visited c g v).findings = (s.opened c v).findings := by
  rw [visited, findings_closed]
  exact foldl_deliver_induction (P := fun s' => s'.findings = (s.opened c v).findings) c g _ _
    (fun _ _ h => h) (fun _ _ _ _ _ _ h => (findings_receive ..).trans h) _ rfl

/-- A visit of an exceptional block visits every node from the state that the nodes before it came
to. It sends the last one of these states to the normal successor and keeps it, and sends to every
handler the join of the states in which its exception leaves the nodes; what they throw of other
types has no part in that. On a lawful domain a solution absorbs at the handler each of these states
of the last visit. -/
theorem exceptional_edges [Inspect S] {operations : List Operation} {g : Graph}
    (hbuild : Graph.build operations = .ok g) (a : Analysis V S) :
    (∀ s v ids next handlers, a.nextVisit? g s = some v →
      v.block.shape = .exceptional ids next handlers →
      (g.block? v.block.id = some v.block ∧ s.stateBefore? v.block.id = some v.entry) ∧
      v.nodes.map (·.node) = g.nodesOf v.block ∧
      (∀ i w, v.nodes[i]? = some w → w.result = a.transfer.visit
        ⟨w.node, g.nodes, v.stateAt i, Pass.valuesAfter s.values (v.nodes.take i)⟩) ∧
      (∃ s', a.step g s = .running s' ∧
        s'.outflow? v.block.id = some (.single (v.stateAt v.nodes.length)) ∧
        s' = ((v.sendings next handlers).foldl (RunState.deliver a.config g v.block.id)
          (s.opened a.config v)).closed v.block.id) ∧
      Sending.all v.block.shape v.entry
        (v.nodes.map (NodeVisit.throwingOnly handlers.types)) = v.sendings next handlers) ∧
    (Lawful S → ∀ fuel r sol, a.runFor g fuel = some r → r.result = .ok sol →
      ∀ b v ids next handlers, lastVisit? (a.visitsFor g fuel) b = some v →
        v.block.shape = .exceptional ids next handlers →
        ∀ e target, (e, target) ∈ handlers.entries → ∀ i < v.nodes.length,
          Absorbs sol.stateBefore? target (v.throwAt e i)) := by
  have hg := wellFormed_of_build hbuild
  refine ⟨fun s v ids next handlers hv hshape => ?_,
    fun hS fuel r sol hr hsol b v ids next handlers hv hshape e target hmem i hi => ?_⟩
  · have hnext := Analysis.nextVisit_of_eq_some hg hv
    have hsendings : Sending.all (.exceptional ids next handlers) v.entry v.nodes =
        v.sendings next handlers := BlockVisit.all_eq_sendings hnext.nodes
    refine ⟨⟨hnext.block, hnext.entry⟩, hnext.map_node_nodes, fun i w hw => ?_,
      ⟨_, Analysis.step_of_nextVisit? hg hv, ?_, ?_⟩, ?_⟩
    · exact congrArg NodeVisit.result (BlockVisit.getElem?_nodes hnext.nodes hw)
    · have hafter : (s.visited a.config g v).after = (s.opened a.config v).after :=
        congrArg (·.1) (RunState.findings_visited a.config g s v)
      rw [Solution.outflow?, hafter, RunState.opened, Table.get?_insert_self, BlockVisit.outflow,
        hshape, ← BlockVisit.finalState_nodes]
      rfl
    · rw [RunState.visited, hshape, hsendings]
    · rw [hshape, Sending.all_map_throwingOnly, hsendings]
  · obtain ⟨s, hs, -, rfl⟩ := Analysis.reaches_of_result_eq_ok hg hr hsol
    have hv := (mem_of_lastVisit?_eq_some hv).1
    obtain ⟨values, hpass⟩ := (hs.runInv hg).visited_nodes v hv
    have hedge : (.handler e, target) ∈ v.block.shape.edges := by
      rw [hshape]
      exact List.mem_cons_of_mem _ (List.mem_map.2 ⟨_, hmem, rfl⟩)
    have hsent : v.sent (.handler e) = some (v.thrownAfter e v.nodes.length) :=
      congrArg some (BlockVisit.thrownState_nodes hpass e)
    obtain ⟨x, hx, hbelow⟩ := hs.absorbs_of_arrives hS (.inr ⟨v, hv, _, hedge, hsent⟩)
    exact ⟨x, hx, hS.below_trans (BlockVisit.below_thrownAfter hS e hi) hbelow⟩

end Sendings

/-- Two calls that may throw, with one handler for two types of exceptions. -/
def guardedCalls : List Operation :=
  [.addExceptional, .addRegular, .pushNode 3 (.invocation "open" none []),
    .pushNode 3 (.marker "check"), .pushNode 3 (.invocation "read" none []), .connect 0 3,
    .connect 3 1, .addHandler 3 "IO" 4, .addHandler 3 "EOF" 4, .connect 4 1]

/-- Every call throws in a state of its own, and `open` also throws what nobody handles. -/
def callCounting : Transfer (Flat Int64) Counter where
  initial _ := ⟨0⟩
  visit i := match i.node.kind with
    | .invocation "open" _ _ =>
      ((NodeResult.single .top ⟨i.state.count + 1⟩).withThrown "IO" ⟨i.state.count + 10⟩).withThrown
        "Usage" ⟨i.state.count + 99⟩
    | .invocation "read" _ _ =>
      (NodeResult.split .top ⟨i.state.count + 2⟩ ⟨i.state.count + 3⟩).withThrown
        "EOF" ⟨i.state.count + 5⟩
    | _ => i.unchanged
  notes _ := []

/-- The handler gets `max 10 1 1` for the one type and `max 0 1 6` for the other. -/
theorem exceptional_edges_guardedCalls :
    let a : Analysis (Flat Int64) Counter := { transfer := callCounting }
    let handlers : ExceptionMap BlockId := ⟨[("IO", 4), ("EOF", 4)], by decide⟩
    ∃ g r sol s v, Graph.build guardedCalls = .ok g ∧ Lawful Counter ∧
      a.runFor g 10 = some r ∧ r.result = .ok sol ∧ lastVisit? (a.visitsFor g 10) 3 = some v ∧
      a.nextVisit? g s = some v ∧ v.block = ⟨3, .exceptional [0, 1, 2] 1 handlers⟩ ∧
      v.nodes.length = 3 ∧
      v.sendings 1 handlers = [.normal 1 ⟨4⟩, .thrown "IO" 4 ⟨10⟩, .thrown "EOF" 4 ⟨6⟩] ∧
      (∀ i w, v.nodes[i]? = some w → w.result = a.transfer.visit
        ⟨w.node, g.nodes, v.stateAt i, Pass.valuesAfter s.values (v.nodes.take i)⟩) ∧
      (∃ s', a.step g s = .running s' ∧
        s'.outflow? v.block.id = some (.single (v.stateAt v.nodes.length)) ∧
        s' = ((v.sendings 1 handlers).foldl (RunState.deliver a.config g v.block.id)
          (s.opened a.config v)).closed v.block.id) ∧
      Sending.all v.block.shape v.entry
        (v.nodes.map (NodeVisit.throwingOnly handlers.types)) = v.sendings 1 handlers ∧
      ∀ i < v.nodes.length, Absorbs sol.stateBefore? 4 (v.throwAt "EOF" i) := by
  intro a handlers
  have hsolved : (a.solve? guardedCalls 10).any fun (g, _) =>
      (lastVisit? (a.visitsFor g 10) 3).any fun v =>
        v.block = ⟨3, .exceptional [0, 1, 2] 1 handlers⟩ ∧ v.nodes.length = 3 ∧
          v.sendings 1 handlers = [.normal 1 ⟨4⟩, .thrown "IO" 4 ⟨10⟩, .thrown "EOF" 4 ⟨6⟩] := by
    decide +kernel
  obtain ⟨⟨g, sol⟩, hsolve, hvisit⟩ := (Option.any_eq_true _ _).1 hsolved
  obtain ⟨v, hv, hfacts⟩ := (Option.any_eq_true _ _).1 hvisit
  obtain ⟨hblock, hlength, hsendings⟩ := of_decide_eq_true hfacts
  obtain ⟨hbuild, r, hr, hsol⟩ := Analysis.solve?_eq_some hsolve
  obtain ⟨_, hs, -⟩ := Analysis.reaches_of_result_eq_ok (wellFormed_of_build hbuild) hr hsol
  obtain ⟨_, s, _, hnext⟩ := hs.exists_of_mem (mem_of_lastVisit?_eq_some hv).1
  have hshape : v.block.shape = .exceptional [0, 1, 2] 1 handlers := congrArg Block.shape hblock
  obtain ⟨hvisits, habsorbs⟩ := exceptional_edges hbuild a
  obtain ⟨-, -, hresults, hstep, hunlisted⟩ := hvisits s v _ _ _ hnext hshape
  exact ⟨g, r, sol, s, v, hbuild, Counter.lawful, hr, hsol, hv, hnext, hblock, hlength, hsendings,
    hresults, hstep, hunlisted,
    habsorbs Counter.lawful 10 r sol hr hsol 3 v _ _ _ hv hshape "EOF" 4 (by decide)⟩

end Dataflow
