import Dataflow.Checker.Tags
import Dataflow.Proofs.Agreement
import Dataflow.Proofs.Paths

/-!
# Isolation of thrown states

Two transfer functions that differ in thrown states only send the same along all edges but those to
handlers. On the blocks that no handler leads to, a visit elsewhere changes nothing
(`AgreeOn.visitedOutside`), and what two states agree on they visit alike (`AgreeOn.visitedAlike`).
So runs agree there after as many visits there (`agreeOn_of_countP_eq`), however many visits either
has made elsewhere, and none ends before the other has made as many (`agreeOn_of_queue_eq_nil`).
-/

namespace Dataflow

def BlockShape.handlerTargets (shape : BlockShape) : List BlockId :=
  shape.edges.filterMap fun
    | (.handler _, target) => some target
    | _ => none

theorem BlockShape.mem_handlerTargets {shape : BlockShape} {e : ExceptionType} {target : BlockId}
    (h : (.handler e, target) ∈ shape.edges) : target ∈ shape.handlerTargets :=
  List.mem_filterMap.2 ⟨_, h, rfl⟩

namespace Graph

variable {g : Graph}

/-- No handler leads to the block. -/
def Shielded (g : Graph) (b : BlockId) : Prop :=
  ∀ block ∈ g.blocks, ∀ target ∈ block.shape.handlerTargets, ¬ g.Leads target b

theorem shielded_of_closed {b : BlockId} (around : List BlockId)
    (htargets : ∀ block ∈ g.blocks, ∀ target ∈ block.shape.handlerTargets, target ∈ around)
    (hclosed : ∀ c ∈ around, ∀ c' ∈ g.successors c, c' ∈ around) (hb : b ∉ around) :
    g.Shielded b := by
  intro block hblock target htarget hleads
  have hall : ∀ {c}, g.Leads target c → c ∈ around := by
    intro c hleads
    induction hleads with
    | refl => exact htargets block hblock target htarget
    | tail _ hc ih => exact hclosed _ ih _ hc
  exact hb (hall hleads)

/-- Whatever comes into the blocks `inside` and their nodes comes from them, and not by way of a
handler. -/
structure Enclosed (g : Graph) (inside : BlockId → Prop) : Prop where
  source : ∀ {b block e target}, g.block? b = some block → (e, target) ∈ block.shape.edges →
    inside target → inside b
  unhandled : ∀ {b block e target}, g.block? b = some block →
    (.handler e, target) ∈ block.shape.edges → ¬ inside target
  operand : ∀ {n node}, g.node? n = some node → inside node.block → ∀ o ∈ node.kind.operands,
    ∃ operand, g.node? o = some operand ∧ inside operand.block

theorem enclosed_shielded
    (hoperands : ∀ {n node}, g.node? n = some node → g.Shielded node.block →
      ∀ o ∈ node.kind.operands, ∃ operand, g.node? o = some operand ∧ g.Shielded operand.block) :
    g.Enclosed g.Shielded where
  source := fun hb he htarget block hblock handler hhandler hleads =>
    htarget block hblock handler hhandler
      (hleads.tail ((mem_successors_iff hb).2 (BlockShape.target_mem_targets he)))
  unhandled := fun hb he htarget =>
    htarget _ (Array.mem_of_getElem? hb) _ (BlockShape.mem_handlerTargets he) .refl
  operand := hoperands

end Graph

variable {V S : Type} [DecidableEq S] [AbstractDomain S]

/-! ## What completes alike -/

namespace Transfer

/-- The two transfer functions differ in the states in which nodes throw, if at all. -/
structure CompletesLike (t t' : Transfer V S) : Prop where
  value : ∀ i, (t.visit i).value = (t'.visit i).value
  joined : ∀ i, (t.visit i).outflow.joined = (t'.visit i).outflow.joined
  thenState : ∀ i, (t.visit i).outflow.thenState = (t'.visit i).outflow.thenState
  elseState : ∀ i, (t.visit i).outflow.elseState = (t'.visit i).outflow.elseState

variable {t t' : Transfer V S}

theorem CompletesLike.completion_visitNode (h : t.CompletesLike t') (nodes : Array Node)
    (values : Table V) (state : S) (n : Node) :
    (t.visitNode nodes values state n).completion =
      (t'.visitNode nodes values state n).completion := by
  simp only [NodeVisit.completion, visitNode, h.value, h.joined, h.thenState, h.elseState]

theorem CompletesLike.map_completion_pass (h : t.CompletesLike t') (nodes : Array Node) :
    ∀ (ns : List Node) (values : Table V) (state : S),
      (t.pass nodes values state ns).map NodeVisit.completion =
        (t'.pass nodes values state ns).map NodeVisit.completion
  | [], _, _ => rfl
  | n :: rest, values, state => by
    have hn := h.completion_visitNode nodes values state n
    have hvalue := congrArg (·.2.1) hn
    have hjoined := congrArg (·.2.2.1) hn
    simp only [NodeVisit.completion] at hvalue hjoined
    rw [pass_cons, pass_cons, List.map_cons, List.map_cons, hn, hvalue, hjoined,
      map_completion_pass h nodes rest]

/-- Passes from one state complete alike if the tables agree on what is read of them. -/
theorem CompletesLike.map_completion_congr {g : Graph} (h : t.CompletesLike t')
    (hreads : t.ReadsOperands g) {ns : List Node} (hmem : ∀ n ∈ ns, n ∈ g.nodes)
    {values values' : Table V}
    (hvalues : ∀ n ∈ ns, ∀ o ∈ n.kind.operands, values.get? o = values'.get? o) (state : S) :
    (t.pass g.nodes values state ns).map NodeVisit.completion =
      (t'.pass g.nodes values' state ns).map NodeVisit.completion := by
  rw [← h.map_completion_pass]
  refine map_pass_congr t hreads NodeVisit.completion (fun n hn state values values' hagree => ?_)
    ns values values' state hmem fun pre n post heq o ho => .inr (hvalues n (by simp [heq]) o ho)
  have hresult := hreads n hn state values values' hagree
  simp only [NodeVisit.completion, visitNode, hresult]

end Transfer

/-- Visits that complete alike send the same but to handlers. -/
theorem Sending.exists_all_eq_append {visits visits' : List (NodeVisit V S)}
    (h : visits.map NodeVisit.completion = visits'.map NodeVisit.completion) (shape : BlockShape)
    (entry : S) :
    ∃ common thrown thrown' : List (Sending S),
      all shape entry visits = common ++ thrown ∧ all shape entry visits' = common ++ thrown' ∧
      ∀ sending ∈ thrown ++ thrown', ∀ target state, sending.carried? = some (target, state) →
        ∃ e, (.handler e, target) ∈ shape.edges := by
  cases shape with
  | exceptional nodes next handlers =>
    let throwings (visits : List (NodeVisit V S)) : List (Sending S) :=
      handlers.entries.map fun handler =>
        thrown handler.1 handler.2 (Pass.thrownState entry visits handler.1)
    refine ⟨[normal next (Pass.finalState entry visits)], throwings visits, throwings visits', rfl,
      by simp only [all, Pass.finalState_eq, h]; rfl, fun sending hmem target state hcarried => ?_⟩
    obtain ⟨e, he⟩ : ∃ e, (e, target) ∈ handlers.entries := by
      rcases List.mem_append.1 hmem with hmem | hmem <;>
        obtain ⟨⟨e, target'⟩, he, rfl⟩ := List.mem_map.1 hmem <;> cases hcarried <;> exact ⟨e, he⟩
    exact ⟨e, List.mem_cons_of_mem _ (List.mem_map.2 ⟨_, he, rfl⟩)⟩
  | _ =>
    exact ⟨_, [], [], (List.append_nil _).symm,
      by simp only [all, Pass.finalState_eq, Pass.branches_eq, h, List.append_nil], by simp⟩

/-! ## Visits -/

/-- The two visits are of one block, from one state, and complete alike. -/
structure BlockVisit.CompletesLike (v v' : BlockVisit V S) : Prop where
  block : v'.block = v.block
  entry : v'.entry = v.entry
  nodes : v.nodes.map NodeVisit.completion = v'.nodes.map NodeVisit.completion

namespace AgreeOn

variable {a a' : Analysis V S} {c : AnalysisConfig} {g : Graph} {inside : BlockId → Prop}
  [DecidablePred inside] {s s' : RunState V S} {v v' : BlockVisit V S}
  (h : AgreeOn c g inside s s')

include h

section Outside

variable (hg : g.WellFormed) (hv : a.NextVisit g s v) (hout : ¬ inside v.block.id)

include hg hv hout

theorem openedOutside : AgreeOn c g inside (s.opened c v) s' where
  sorted := h.sorted.opened v
  sorted' := h.sorted'
  queue := by
    obtain ⟨rest, hqueue⟩ := hv.queue
    rw [← h.queue, hqueue, List.filter_cons_of_neg (by simpa using hout)]
    simp only [RunState.opened, hqueue, List.tail_cons]
  record := fun b hb => by
    rw [RunState.blockRecord_opened, if_neg (by rintro rfl; exact hout hb), h.record b hb]
  values := fun {n node} hn hb => by
    have hnone : v.value? n = none := by
      rw [← Option.not_isSome_iff_eq_none,
        BlockVisit.isSome_value?_iff hg hv.block hv.map_node_nodes]
      rintro ⟨node', hn', hv'⟩
      obtain rfl : node = node' := Option.some.inj (hn.symm.trans hn')
      exact hout (hv' ▸ hb)
    rw [← h.values hn hb, RunState.opened,
      BlockVisit.get?_valuesAfter hg hv.block hv.map_node_nodes, hnone, Option.none_or]

/-- A visit of another block changes nothing inside. -/
theorem visitedOutside (hinside : g.Enclosed inside) :
    AgreeOn c g inside (s.visited c g v) s' := by
  refine ((h.openedOutside hg hv hout).deliverOutside v.block.id
    fun sending hmem target state hcarried htarget => ?_).closedOutside hout
  obtain ⟨e, he, -⟩ := Sending.mem_carried_all_iff.1 ⟨sending, hmem, hcarried⟩
  exact hout (hinside.source hv.block he htarget)

end Outside

variable (hg : g.WellFormed) (hinside : g.Enclosed inside) (hv : a.NextVisit g s v)
  (hv' : a'.NextVisit g s' v') (hin : inside v.block.id)

include hg hv hv' hin

theorem completesLike (halike : a.transfer.CompletesLike a'.transfer)
    (hreads : a.transfer.ReadsOperands g) (hinside : g.Enclosed inside)
    (hin' : inside v'.block.id) : v.CompletesLike v' := by
  obtain ⟨rest, hqueue⟩ := hv.queue
  obtain ⟨rest', hqueue'⟩ := hv'.queue
  obtain ⟨hid, -⟩ := h.head_eq hqueue hqueue' hin hin'
  have hbefore : s.before.get? v.block.id = s'.before.get? v.block.id :=
    congrArg BlockRecord.before (h.record _ hin)
  have hblock : v'.block = v.block := by
    have heq := hv'.block
    rw [← hid, hv.block] at heq
    exact (Option.some.inj heq).symm
  have hentry : v'.entry = v.entry := by
    have heq := hv'.entry
    rw [← hid, ← hbefore, hv.entry] at heq
    exact (Option.some.inj heq).symm
  refine ⟨hblock, hentry, ?_⟩
  rw [hv.nodes, hv'.nodes, hblock, hentry]
  have hmem := fun n => hg.mem_nodesOf_iff hv.block (n := n)
  refine halike.map_completion_congr hreads
    (fun n hn => Array.mem_of_getElem? ((hmem n).1 hn).1) (fun n hn o ho => ?_) _
  obtain ⟨hnode, hnb⟩ := (hmem n).1 hn
  obtain ⟨operand, ho, hob⟩ := hinside.operand hnode (hnb ▸ hin) o ho
  exact h.values ho hob

variable (hlike : v.CompletesLike v')

include hlike

theorem openedAlike : AgreeOn c g inside (s.opened c v) (s'.opened c v') where
  sorted := h.sorted.opened v
  sorted' := h.sorted'.opened v'
  queue := by
    obtain ⟨rest, hqueue⟩ := hv.queue
    obtain ⟨rest', hqueue'⟩ := hv'.queue
    simp only [RunState.opened, hqueue, hqueue', List.tail_cons]
    exact (h.head_eq hqueue hqueue' hin (hlike.block ▸ hin)).2
  record := fun b hb => by
    have hrecord := h.record b hb
    have hvisits : s.visitsOf b = s'.visitsOf b := congrArg BlockRecord.visits hrecord
    have houtflow : v.outflow = v'.outflow := by
      rw [BlockVisit.outflow, BlockVisit.outflow, hlike.block, hlike.entry,
        Pass.outflow_of_completions hlike.nodes]
    rw [RunState.blockRecord_opened, RunState.blockRecord_opened, hlike.block, hrecord, hvisits,
      houtflow]
  values := fun {n node} hn hb => by
    have hvalue : v.value? n = v'.value? n := Pass.value?_of_completions hlike.nodes n
    rw [RunState.opened, RunState.opened,
      BlockVisit.get?_valuesAfter hg hv.block hv.map_node_nodes,
      BlockVisit.get?_valuesAfter hg hv'.block hv'.map_node_nodes, hvalue, h.values hn hb]

include hinside

/-- Visits that complete alike leave the same inside. -/
theorem visitedAlike : AgreeOn c g inside (s.visited c g v) (s'.visited c g v') := by
  obtain ⟨common, thrown, thrown', hall, hall', hthrown⟩ :=
    Sending.exists_all_eq_append hlike.nodes v.block.shape v.entry
  have houtside : ∀ sending ∈ thrown ++ thrown', ∀ target state,
      sending.carried? = some (target, state) → ¬ inside target := by
    intro sending hmem target state hcarried
    obtain ⟨e, he⟩ := hthrown sending hmem target state hcarried
    exact hinside.unhandled hv.block he
  have hcommon := (h.openedAlike hg hv hv' hin hlike).deliver v.block.id common
  have hafter := hcommon.deliverOutside v.block.id
    fun sending hmem => houtside sending (List.mem_append_left _ hmem)
  have hafter' := hafter.symm.deliverOutside v.block.id
    fun sending hmem => houtside sending (List.mem_append_right _ hmem)
  rw [RunState.visited, RunState.visited, hlike.block, hlike.entry, hall, hall',
    List.foldl_append, List.foldl_append]
  exact hafter'.symm.closed v.block.id

end AgreeOn

/-! ## Runs -/

namespace Analysis

/-- The two analyses differ in the states in which nodes throw, and in when they are cancelled, if
at all. -/
structure CompletesLike (a a' : Analysis V S) (g : Graph) : Prop where
  config : a'.config = a.config
  initial : a'.transfer.initial g = a.transfer.initial g
  transfer : a.transfer.CompletesLike a'.transfer

variable {a a' : Analysis V S} {g : Graph} {inside : BlockId → Prop} [DecidablePred inside]
  {visits visits' : List (BlockVisit V S)} {s s' : RunState V S}

theorem agreeOn_start (halike : a.CompletesLike a' g) (h : a.start g = .running s)
    (h' : a'.start g = .running s') : AgreeOn a.config g inside s s' := by
  obtain ⟨events, rfl⟩ := exists_of_start_eq_running h
  obtain ⟨events', rfl⟩ := exists_of_start_eq_running h'
  rw [halike.config, halike.initial]
  refine AgreeOn.receive ?_ entryBlock entryBlock (a.transfer.initial g)
  have hempty : (RunState.empty : RunState V S).Sorted a.config g := fun _ => .nil
  exact (((AgreeOn.refl hempty).events events).symm.events events').symm

omit [DecidableEq S] [AbstractDomain S] in
theorem countP_inside_concat (visits : List (BlockVisit V S)) (v : BlockVisit V S) :
    (visits ++ [v]).countP (inside ·.block.id) =
      visits.countP (inside ·.block.id) + if inside v.block.id then 1 else 0 := by
  simp [List.countP_singleton]

/-- A run that has made more visits inside was, after so many of them, about to make another. -/
theorem Reaches.exists_next_inside (h : a.Reaches g visits s) {count : Nat}
    (hcount : count < visits.countP (inside ·.block.id)) :
    ∃ before s' v, a.Reaches g before s' ∧ before.countP (inside ·.block.id) = count ∧
      a.nextVisit? g s' = some v ∧ inside v.block.id := by
  induction h with
  | start _ => cases hcount
  | @visit visits s v h hv ih =>
    rw [countP_inside_concat] at hcount
    split_ifs at hcount with hin
    · rcases Nat.lt_or_eq_of_le (Nat.le_of_lt_succ hcount) with hlt | rfl
      · exact ih hlt
      · exact ⟨visits, s, v, h, rfl, hv, hin⟩
    · exact ih hcount

variable (hg : g.WellFormed)

include hg

/-- A run makes no more visits inside than those after which nothing inside waits. -/
theorem Reaches.countP_inside_le (h : a.Reaches g visits s) {count : Nat}
    (hnone : ∀ {before s'}, a.Reaches g before s' → before.countP (inside ·.block.id) = count →
      ∀ b ∈ s'.queue, ¬ inside b) : visits.countP (inside ·.block.id) ≤ count := by
  refine Nat.le_of_not_lt fun hlt => ?_
  obtain ⟨before, s', v, hs', hcount, hv, hin⟩ := h.exists_next_inside hlt
  exact hnone hs' hcount _ (nextVisit_of_eq_some hg hv).mem_queue hin

variable (hinside : g.Enclosed inside) (halike : a.CompletesLike a' g)
  (hreads : a.transfer.ReadsOperands g)

include hinside halike hreads

/-- After as many visits inside, the runs agree there. -/
theorem agreeOn_of_countP_eq (h : a.Reaches g visits s) (h' : a'.Reaches g visits' s')
    (hcount : visits.countP (inside ·.block.id) = visits'.countP (inside ·.block.id)) :
    AgreeOn a.config g inside s s' := by
  induction h generalizing visits' s' with
  | start hstart =>
    induction h' with
    | start hstart' => exact agreeOn_start halike hstart hstart'
    | visit _ hv' ih' =>
      rw [countP_inside_concat] at hcount
      split_ifs at hcount with hin'
      · cases hcount
      · have hnext' := nextVisit_of_eq_some hg hv'
        rw [halike.config]
        exact ((ih' hcount).symm.visitedOutside hg hnext' hin' hinside).symm
  | visit _ hv ih =>
    have hnext := nextVisit_of_eq_some hg hv
    rw [countP_inside_concat] at hcount
    split_ifs at hcount with hin
    · induction h' with
      | start _ => cases hcount
      | visit h' hv' ih' =>
        have hnext' := nextVisit_of_eq_some hg hv'
        rw [countP_inside_concat] at hcount
        rw [halike.config]
        split_ifs at hcount with hin'
        · have hagree := ih h' (Nat.succ.inj hcount)
          have hlike := hagree.completesLike hg hnext hnext' hin halike.transfer hreads hinside hin'
          exact hagree.visitedAlike hg hinside hnext hnext' hin hlike
        · exact ((ih' hcount).symm.visitedOutside hg hnext' hin' hinside).symm
    · exact (ih h' hcount).visitedOutside hg hnext hin hinside

/-- Of two runs with nothing left to visit neither has made more visits inside. -/
theorem agreeOn_of_queue_eq_nil (h : a.Reaches g visits s) (hqueue : s.queue = [])
    (h' : a'.Reaches g visits' s') (hqueue' : s'.queue = []) : AgreeOn a.config g inside s s' := by
  refine agreeOn_of_countP_eq hg hinside halike hreads h h' (Nat.le_antisymm ?_ ?_)
  · refine h.countP_inside_le hg fun hs₁ hcount => ?_
    have hagree := agreeOn_of_countP_eq hg hinside halike hreads hs₁ h' hcount
    exact hagree.symm.not_inside_of_queue_eq_nil hqueue'
  · refine h'.countP_inside_le hg fun hs₁ hcount => ?_
    have hagree := agreeOn_of_countP_eq hg hinside halike hreads h hs₁ hcount.symm
    exact hagree.not_inside_of_queue_eq_nil hqueue

end Analysis

/-- Two runs, with the same settings, of transfer functions that differ in thrown states only find
the same at the blocks that no handler leads to, and at their nodes, if these read nothing from
elsewhere. -/
theorem results_eq_of_shielded {operations : List Operation} {g : Graph}
    (hbuild : Graph.build operations = .ok g) {a a' : Analysis V S} (halike : a.CompletesLike a' g)
    (hreads : a.transfer.ReadsOperands g)
    (hoperands : ∀ {n node}, g.node? n = some node → g.Shielded node.block →
      ∀ o ∈ node.kind.operands, ∃ operand, g.node? o = some operand ∧ g.Shielded operand.block)
    {fuel fuel' : Nat} {r r' : Run V S} {sol sol' : Solution V S}
    (hr : a.runFor g fuel = some r) (hsol : r.result = .ok sol)
    (hr' : a'.runFor g fuel' = some r') (hsol' : r'.result = .ok sol') :
    (∀ b, g.Shielded b → sol.stateBefore? b = sol'.stateBefore? b ∧
      sol.outflow? b = sol'.outflow? b ∧ sol.visitsOf b = sol'.visitsOf b) ∧
    ∀ n node, g.node? n = some node → g.Shielded node.block → sol.value? n = sol'.value? n := by
  classical
  have hg := wellFormed_of_build hbuild
  obtain ⟨s, hs, hqueue, rfl⟩ := Analysis.reaches_of_result_eq_ok hg hr hsol
  obtain ⟨s', hs', hqueue', rfl⟩ := Analysis.reaches_of_result_eq_ok hg hr' hsol'
  have hagree := Analysis.agreeOn_of_queue_eq_nil hg (Graph.enclosed_shielded hoperands) halike
    hreads hs hqueue hs' hqueue'
  refine ⟨fun b hb => ?_, fun n node hn hb => hagree.values hn hb⟩
  have hrecord := hagree.record b hb
  simp only [RunState.blockRecord, BlockRecord.mk.injEq] at hrecord
  obtain ⟨-, hbefore, -, hafter, hvisits⟩ := hrecord
  exact ⟨hbefore, hafter, hvisits⟩

/-! ## Tags -/

theorem TagChecker.throwing_eq (c : TagChecker) (what : String) (i : NodeInput (Flat Int64) Tags)
    (r : NodeResult (Flat Int64) Tags) :
    (c.throwing what i r).value = r.value ∧ (c.throwing what i r).outflow = r.outflow := by
  unfold throwing
  induction c.throws generalizing r with
  | nil => exact ⟨rfl, rfl⟩
  | cons e rest ih => exact ih _

theorem TagChecker.completesLike (c c' : TagChecker) : c.transfer.CompletesLike c'.transfer := by
  have hvisit : ∀ i : NodeInput (Flat Int64) Tags,
      (c.transfer.visit i).value = (c'.transfer.visit i).value ∧
        (c.transfer.visit i).outflow = (c'.transfer.visit i).outflow := by
    rintro ⟨⟨id, block, kind⟩, nodes, state, values⟩
    cases kind with
    | unary _ _ | invocation _ _ _ =>
      simp only [transfer, Visitor.visit, visitor, throwing_eq, and_self]
    | _ => exact ⟨rfl, rfl⟩
  refine ⟨fun i => (hvisit i).1, ?_, ?_, ?_⟩ <;> intro i <;> rw [(hvisit i).2]

theorem TagChecker.readsOperands (c : TagChecker) (g : Graph) : c.transfer.ReadsOperands g := by
  rintro ⟨id, block, kind⟩ _ state values values' _
  cases kind <;> rfl

/-- Two calls that may throw, with one handler. Both read the result of a call before them. -/
def sharedHandler : List Operation :=
  [.addRegular, .pushNode 3 (.invocation "call" none []), .addExceptional,
    .pushNode 4 (.invocation "call" none [0]), .addRegular, .pushNode 5 (.literal .null),
    .addExceptional, .pushNode 6 (.invocation "wait" none [0]), .addRegular,
    .pushNode 7 (.literal .null), .connect 0 3, .connect 3 4, .connect 4 5, .connect 5 6,
    .connect 6 1, .addHandler 4 "E" 7, .addHandler 6 "E" 7, .connect 7 2]

def sharedHandlerGraph : Graph :=
  .ofTables
    #[⟨0, .entry 3⟩, ⟨1, .exit⟩, ⟨2, .exceptionalExit⟩, ⟨3, .regular [0] 4⟩,
      ⟨4, .exceptional [1] 5 ⟨[("E", 7)], by decide⟩⟩, ⟨5, .regular [2] 6⟩,
      ⟨6, .exceptional [3] 1 ⟨[("E", 7)], by decide⟩⟩, ⟨7, .regular [4] 2⟩]
    #[⟨0, 3, .invocation "call" none []⟩, ⟨1, 4, .invocation "call" none [0]⟩,
      ⟨2, 5, .literal .null⟩, ⟨3, 6, .invocation "wait" none [0]⟩, ⟨4, 7, .literal .null⟩]

theorem build_sharedHandler : Graph.build sharedHandler = .ok sharedHandlerGraph := rfl

theorem shielded_sharedHandler {b : BlockId} (hb : b ∉ [7, 2]) : sharedHandlerGraph.Shielded b :=
  Graph.shielded_of_closed [7, 2] (by decide) (by decide) hb

/-- Collecting tags in the order of arrival, where calls throw these exceptions. -/
def taggingFifo (throws : List ExceptionType) : Analysis (Flat Int64) Tags where
  transfer := TagChecker.transfer { throws }
  config := { order := .fifo }

/-- The handler is visited twice where the calls throw states of their own, and once where they do
not. -/
theorem results_eq_sharedHandler :
    ∃ g r r' sol sol', Graph.build sharedHandler = .ok g ∧
      (taggingFifo ["E"]).CompletesLike (taggingFifo []) g ∧
      (taggingFifo ["E"]).transfer.ReadsOperands g ∧
      (∀ {n node}, g.node? n = some node → g.Shielded node.block →
        ∀ o ∈ node.kind.operands, ∃ operand, g.node? o = some operand ∧ g.Shielded operand.block) ∧
      (taggingFifo ["E"]).runFor g 40 = some r ∧ r.result = .ok sol ∧
      (taggingFifo []).runFor g 40 = some r' ∧ r'.result = .ok sol' ∧
      (sol.visitsOf 7 ≠ sol'.visitsOf 7 ∧ sol.stateBefore? 7 ≠ sol'.stateBefore? 7) ∧
      (∀ b, g.Shielded b → sol.stateBefore? b = sol'.stateBefore? b ∧
        sol.outflow? b = sol'.outflow? b ∧ sol.visitsOf b = sol'.visitsOf b) ∧
      ∀ n node, g.node? n = some node → g.Shielded node.block → sol.value? n = sol'.value? n := by
  have hsolved : ((taggingFifo ["E"]).solve? sharedHandler 40).any fun found =>
      ((taggingFifo []).solve? sharedHandler 40).any fun found' =>
        found.2.visitsOf 7 ≠ found'.2.visitsOf 7 ∧
          found.2.stateBefore? 7 ≠ found'.2.stateBefore? 7 := by
    decide +kernel
  obtain ⟨⟨g, sol⟩, hsolve, hfound⟩ := (Option.any_eq_true _ _).1 hsolved
  obtain ⟨⟨g', sol'⟩, hsolve', hdiffer⟩ := (Option.any_eq_true _ _).1 hfound
  obtain ⟨hg, r, hr, hsol⟩ := Analysis.solve?_eq_some hsolve
  obtain ⟨hg', r', hr', hsol'⟩ := Analysis.solve?_eq_some hsolve'
  obtain rfl : sharedHandlerGraph = g := Except.ok.inj (build_sharedHandler.symm.trans hg)
  obtain rfl : sharedHandlerGraph = g' := Except.ok.inj (build_sharedHandler.symm.trans hg')
  have halike : (taggingFifo ["E"]).CompletesLike (taggingFifo []) sharedHandlerGraph :=
    ⟨rfl, rfl, TagChecker.completesLike _ _⟩
  have hreads := TagChecker.readsOperands { throws := ["E"] } sharedHandlerGraph
  have hoperands : ∀ {n node}, sharedHandlerGraph.node? n = some node →
      sharedHandlerGraph.Shielded node.block → ∀ o ∈ node.kind.operands,
        ∃ operand, sharedHandlerGraph.node? o = some operand ∧
          sharedHandlerGraph.Shielded operand.block := by
    intro n node hn _ o ho
    have hfirst : ∀ node ∈ sharedHandlerGraph.nodes, ∀ o ∈ node.kind.operands, o = 0 := by decide
    obtain rfl := hfirst node (Array.mem_of_getElem? hn) o ho
    exact ⟨_, rfl, shielded_sharedHandler (by decide)⟩
  exact ⟨_, r, r', sol, sol', hg, halike, hreads, hoperands, hr, hsol, hr', hsol',
    of_decide_eq_true hdiffer, results_eq_of_shielded hg halike hreads hoperands hr hsol hr' hsol'⟩

end Dataflow
