import Dataflow.Proofs.History

/-!
# Invariants of runs

A recorded state waits at its block or is the one that the block's last visit began with
(`RunInv.settled`), and all else that a state of a run holds is a function of the visits so far
(`Accounts`). A run that finds a solution therefore stops in a state that it reaches with nothing
left to visit (`reaches_of_result_eq_ok`).
-/

namespace Dataflow

variable {V S : Type}

namespace RunState

@[simp] theorem queue_closed (s : RunState V S) (b : BlockId) : (s.closed b).queue = s.queue := by
  unfold closed
  split <;> rfl

@[simp] theorem before_closed (s : RunState V S) (b : BlockId) :
    (s.closed b).before = s.before := by
  unfold closed
  split <;> rfl

@[simp] theorem findings_closed (s : RunState V S) (b : BlockId) :
    (s.closed b).findings = s.findings := by
  unfold closed
  split <;> rfl

theorem status_closed (s : RunState V S) (b x : BlockId) :
    (s.closed b).status x =
      if x = b ∧ s.status b = .processing then .stable else s.status x := by
  unfold closed
  split
  · rw [status_setStatus]
    simp [*]
  · simp [*]

theorem QueueInv.closed {s : RunState V S} (h : s.QueueInv) (b : BlockId) :
    (s.closed b).QueueInv where
  mem_iff := fun x => by
    rw [queue_closed, h.mem_iff, status_closed]
    grind
  nodup := by
    rw [queue_closed]
    exact h.nodup

variable [DecidableEq S] [AbstractDomain S]

theorem status_opened (c : AnalysisConfig) (s : RunState V S) (v : BlockVisit V S) (b : BlockId) :
    (s.opened c v).status b = if b = v.block.id then .processing else s.status b :=
  status_setStatus s v.block.id b .processing

theorem QueueInv.opened {c : AnalysisConfig} {s : RunState V S} (h : s.QueueInv)
    {v : BlockVisit V S} {rest : List BlockId} (hqueue : s.queue = v.block.id :: rest) :
    (s.opened c v).QueueInv := by
  have hnodup := hqueue ▸ h.nodup
  rw [List.nodup_cons] at hnodup
  refine ⟨fun b => ?_, by simpa [RunState.opened, hqueue] using hnodup.2⟩
  have hmem := h.mem_iff b
  rw [hqueue, List.mem_cons] at hmem
  rw [status_opened]
  simp only [RunState.opened, hqueue, List.tail_cons]
  grind

end RunState

/-! ## What waits and what is settled -/

variable [DecidableEq S] [AbstractDomain S]

namespace Analysis

variable (a : Analysis V S) (g : Graph)

structure RunInv (visits : List (BlockVisit V S)) (s : RunState V S) : Prop where
  queueInv : s.QueueInv
  recorded_lt : ∀ {b x}, s.before.get? b = some x → b < g.blocks.size
  waiting_recorded : ∀ {b}, b ∈ s.queue → (s.before.get? b).isSome
  /-- A recorded state waits, or has been visited last. -/
  settled : ∀ {b x}, s.before.get? b = some x →
    b ∈ s.queue ∨ ∃ v, lastVisit? visits b = some v ∧ v.entry = x
  visited_recorded : ∀ v ∈ visits, (s.before.get? v.block.id).isSome
  visited_block : ∀ v ∈ visits, g.block? v.block.id = some v.block
  visited_nodes : ∀ v ∈ visits, ∃ values,
    v.nodes = a.transfer.pass g.nodes values v.entry (g.nodesOf v.block)

variable {a g} {visits : List (BlockVisit V S)} {s : RunState V S}

theorem Arrives.target_lt (hg : g.WellFormed)
    (hblock : ∀ v ∈ visits, g.block? v.block.id = some v.block) {target : BlockId} {state : S}
    (h : a.Arrives g visits target state) : target < g.blocks.size := by
  rcases h with ⟨rfl, -⟩ | ⟨v, hv, e, he, -⟩
  · exact hg.entry_lt
  · exact hg.target_lt (hblock v hv) target (BlockShape.target_mem_targets he)

namespace RunInv

theorem empty : a.RunInv g [] .empty := by
  refine ⟨⟨fun b => ?_, List.nodup_nil⟩, ?_, ?_, ?_, ?_, ?_, ?_⟩ <;>
    simp [RunState.empty, RunState.status, Solution.empty]

theorem events (h : a.RunInv g visits s) (events : Array Event) :
    a.RunInv g visits { s with events := events } :=
  { h with queueInv := ⟨h.queueInv.mem_iff, h.queueInv.nodup⟩ }

theorem closed (h : a.RunInv g visits s) (b : BlockId) : a.RunInv g visits (s.closed b) := by
  refine ⟨h.queueInv.closed b, ?_, ?_, ?_, ?_, h.visited_block, h.visited_nodes⟩ <;>
    simp only [RunState.before_closed, RunState.queue_closed]
  · exact h.recorded_lt
  · exact h.waiting_recorded
  · exact h.settled
  · exact h.visited_recorded

theorem receive (hg : g.WellFormed) (h : a.RunInv g visits s) (source : BlockId)
    {target : BlockId} {state : S} (harrives : a.Arrives g visits target state) :
    a.RunInv g visits (s.receive a.config g source target state) := by
  have hbefore := RunState.get?_before_receive a.config g s source target state
  have hqueue := h.queueInv.mem_receive_iff a.config g source target state
  refine ⟨h.queueInv.receive _ _ _ _ _, fun {b x} hb => ?_, fun {b} hb => ?_, fun {b x} hb => ?_,
    fun v hv => ?_, h.visited_block, h.visited_nodes⟩
  · rw [hbefore] at hb
    split at hb
    · subst_vars
      exact harrives.target_lt hg h.visited_block
    · exact h.recorded_lt hb
  · rw [hqueue] at hb
    rw [hbefore]
    split
    · rfl
    · rename_i hne
      exact h.waiting_recorded (hb.resolve_right fun hb => hne hb.1)
  · rw [hbefore] at hb
    rw [hqueue]
    split at hb
    · rename_i hbt
      subst hbt
      by_cases hsame : s.before.get? b = some (s.merged a.config b state)
      · rw [← hsame] at hb
        exact (h.settled hb).imp_left .inl
      · exact .inl (.inr ⟨rfl, hsame⟩)
    · exact (h.settled hb).imp_left .inl
  · rw [hbefore]
    split
    · rfl
    · exact h.visited_recorded v hv

theorem opened (hg : g.WellFormed) (h : a.RunInv g visits s) {v : BlockVisit V S}
    (hv : a.nextVisit? g s = some v) :
    a.RunInv g (visits ++ [v]) (s.opened a.config v) := by
  obtain ⟨⟨rest, hqueue⟩, hblock, hentry, hnodes⟩ := nextVisit_of_eq_some hg hv
  refine ⟨h.queueInv.opened hqueue, h.recorded_lt, fun {b} hb => ?_, fun {b x} hb => ?_,
    fun w hw => ?_, fun w hw => ?_, fun w hw => ?_⟩
  · exact h.waiting_recorded (List.mem_of_mem_tail hb)
  · rw [lastVisit?_concat]
    by_cases hbv : b = v.block.id
    · subst hbv
      refine .inr ⟨v, if_pos rfl, ?_⟩
      exact Option.some.inj (hentry.symm.trans hb)
    · rw [if_neg hbv]
      refine (h.settled hb).imp_left fun hmem => ?_
      rw [hqueue, List.mem_cons] at hmem
      simpa [RunState.opened, hqueue] using hmem.resolve_left hbv
  all_goals
    rcases List.mem_append.1 hw with hw | hw
  · exact h.visited_recorded w hw
  · rw [List.mem_singleton.1 hw]
    exact Option.isSome_iff_exists.2 ⟨_, hentry⟩
  · exact h.visited_block w hw
  · rw [List.mem_singleton.1 hw]
    exact hblock
  · exact h.visited_nodes w hw
  · rw [List.mem_singleton.1 hw]
    exact ⟨_, hnodes⟩

end RunInv

theorem Reaches.runInv (hg : g.WellFormed) (h : a.Reaches g visits s) : a.RunInv g visits s :=
  Reaches.induction (P := a.RunInv g) .empty (fun es h => h.events es)
    (fun source _ _ harrives h => h.receive hg source harrives) (fun hv h => h.opened hg hv)
    (fun b h => h.closed b) h

theorem RunInv.stateBefore?_eq (h : a.RunInv g visits s) (hqueue : s.queue = []) (b : BlockId) :
    s.stateBefore? b = (lastVisit? visits b).map (·.entry) := by
  unfold Solution.stateBefore?
  rcases hb : s.before.get? b with _ | x
  · rcases hv : lastVisit? visits b with _ | v
    · rfl
    · obtain ⟨hmem, rfl⟩ := mem_of_lastVisit?_eq_some hv
      have := h.visited_recorded v hmem
      rw [hb] at this
      cases this
  · rcases h.settled hb with hmem | ⟨v, hv, rfl⟩
    · rw [hqueue] at hmem
      cases hmem
    · rw [hv]
      rfl

theorem RunInv.isSome_stateBefore? (h : a.RunInv g visits s) (hqueue : s.queue = [])
    (b : BlockId) : (s.stateBefore? b).isSome = (lastVisit? visits b).isSome := by
  rw [h.stateBefore?_eq hqueue, Option.isSome_map]

/-- As `Reaches.induction`, where the invariant holds of the state at hand. -/
theorem Reaches.induction_runInv (hg : g.WellFormed)
    {P : List (BlockVisit V S) → RunState V S → Prop} (empty : P [] .empty)
    (events : ∀ {visits s} events, P visits s → P visits { s with events := events })
    (receive : ∀ {visits s} source {target state}, a.RunInv g visits s →
      a.Arrives g visits target state → P visits s →
      P visits (s.receive a.config g source target state))
    (opened : ∀ {visits s v}, a.RunInv g visits s → a.nextVisit? g s = some v → P visits s →
      P (visits ++ [v]) (s.opened a.config v))
    (closed : ∀ {visits s} b, P visits s → P visits (s.closed b))
    {visits : List (BlockVisit V S)} {s : RunState V S} (h : a.Reaches g visits s) :
    P visits s := by
  refine (Reaches.induction (P := fun visits s => a.RunInv g visits s ∧ P visits s) ?_ ?_ ?_ ?_ ?_
    h).2
  · exact ⟨.empty, empty⟩
  · exact fun es h => ⟨h.1.events es, events es h.2⟩
  · exact fun source _ _ harrives h =>
      ⟨h.1.receive hg source harrives, receive source h.1 harrives h.2⟩
  · exact fun hv h => ⟨h.1.opened hg hv, opened h.1 hv h.2⟩
  · exact fun b h => ⟨h.1.closed b, closed b h.2⟩

/-! ## What a state holds -/

/-- A state holds what these visits have found. -/
structure Accounts (visits : List (BlockVisit V S)) (s : RunState V S) : Prop where
  after : ∀ b, s.after.get? b = (lastVisit? visits b).map BlockVisit.outflow
  values : s.values = valuesOf visits
  visitsOf : ∀ b, s.visitsOf b = visits.countP (·.block.id = b)
  totalVisits : s.totalVisits = visits.length
  log : s.log = (visits.flatMap (·.nodes)).toArray
  nodeStates : ∀ {n x}, s.nodeStates.get? n = some x →
    ∃ v ∈ visits, ∃ w ∈ v.nodes, w.node.id = n ∧ w.state = x

theorem Accounts.congr {s' : RunState V S} (h : Accounts visits s)
    (hfindings : s'.findings = s.findings) : Accounts visits s' := by
  simp only [RunState.findings, Prod.mk.injEq] at hfindings
  obtain ⟨hafter, hvalues, hnodes, hvisits, htotal, hlog⟩ := hfindings
  refine ⟨hafter ▸ h.after, hvalues.trans h.values, fun b => ?_, htotal.trans h.totalVisits,
    hlog.trans h.log, hnodes ▸ h.nodeStates⟩
  rw [← h.visitsOf, Solution.visitsOf, Solution.visitsOf, hvisits]

theorem Accounts.opened (h : Accounts visits s) (c : AnalysisConfig) (v : BlockVisit V S) :
    Accounts (visits ++ [v]) (s.opened c v) where
  after := fun b => by
    rw [lastVisit?_concat]
    simp only [RunState.opened, Table.get?_insert]
    split
    · rfl
    · exact h.after b
  values := by rw [valuesOf_concat, ← h.values]; rfl
  visitsOf := fun b => by
    have hb := h.visitsOf b
    rw [List.countP_append, List.countP_singleton, ← hb]
    simp only [RunState.opened, Solution.visitsOf, Table.get?_insert, decide_eq_true_eq]
    by_cases hbv : v.block.id = b
    · simp [hbv]
    · simp [hbv, Ne.symm hbv]
  totalVisits := by simp [RunState.opened, h.totalVisits]
  log := by simp [RunState.opened, h.log]
  nodeStates := fun {n x} hx => by
    simp only [RunState.opened] at hx
    have hcases : (∃ w ∈ v.nodes, w.node.id = n ∧ w.state = x) ∨ s.nodeStates.get? n = some x := by
      split at hx
      · rw [get?_foldl_insert, Option.or_eq_some_iff] at hx
        refine hx.imp (fun hlast => ?_) And.right
        obtain ⟨w, hw, rfl⟩ := Option.map_eq_some_iff.1 hlast
        obtain ⟨hmem, rfl⟩ := mem_of_lastNodeVisit?_eq_some hw
        exact ⟨w, hmem, rfl, rfl⟩
      · exact .inr hx
    rcases hcases with hw | hx
    · exact ⟨v, by simp, hw⟩
    · obtain ⟨v', hv', hw⟩ := h.nodeStates hx
      exact ⟨v', List.mem_append_left _ hv', hw⟩

theorem Reaches.accounts (h : a.Reaches g visits s) : Accounts visits s :=
  Reaches.induction (P := Accounts) ⟨fun _ => rfl, rfl, fun _ => rfl, rfl, rfl, nofun⟩
    (fun _ h => h.congr rfl)
    (fun _ _ _ _ h => h.congr (RunState.findings_receive _ _ _ _ _ _))
    (fun _ h => h.opened _ _)
    (fun b h => h.congr (RunState.findings_closed _ b)) h

theorem RunInv.nodes_eq (h : a.RunInv g visits s) {v : BlockVisit V S} (hv : v ∈ visits) :
    v.nodes.map (·.node) = g.nodesOf v.block := by
  obtain ⟨values, hnodes⟩ := h.visited_nodes v hv
  rw [hnodes, nodes_pass]

theorem Reaches.get?_values (hg : g.WellFormed) (h : a.Reaches g visits s) (n : NodeId) :
    s.values.get? n =
      (g.node? n).bind fun node => (lastVisit? visits node.block).bind (·.value? n) := by
  rw [h.accounts.values]
  exact get?_valuesOf hg n visits (h.runInv hg).visited_block fun v hv => (h.runInv hg).nodes_eq hv

theorem Reaches.isSome_value?_iff (hg : g.WellFormed) (h : a.Reaches g visits s) {n : NodeId} :
    (s.value? n).isSome ↔
      ∃ node, g.node? n = some node ∧ (lastVisit? visits node.block).isSome := by
  have hinv := h.runInv hg
  rw [Solution.value?, h.get?_values hg]
  rcases hn : g.node? n with _ | node
  · simp
  rcases hv : lastVisit? visits node.block with _ | v
  · simp [hv]
  · obtain ⟨hmem, hvb⟩ := mem_of_lastVisit?_eq_some hv
    have hvalue : (v.value? n).isSome :=
      (BlockVisit.isSome_value?_iff hg (hinv.visited_block v hmem) (hinv.nodes_eq hmem) n).2
        ⟨node, hn, hvb.symm⟩
    simp [hv, hvalue]

theorem Reaches.value?_of_mem (hg : g.WellFormed) (h : a.Reaches g visits s) {b : BlockId}
    {v : BlockVisit V S} (hv : lastVisit? visits b = some v) {w : NodeVisit V S}
    (hw : w ∈ v.nodes) : s.value? w.node.id = some w.result.value := by
  obtain ⟨hmem, rfl⟩ := mem_of_lastVisit?_eq_some hv
  have hinv := h.runInv hg
  have hblock := hinv.visited_block v hmem
  have hnodes := hinv.nodes_eq hmem
  have hw' : w.node ∈ g.nodesOf v.block := hnodes ▸ List.mem_map_of_mem hw
  obtain ⟨hnode, hb⟩ := (hg.mem_nodesOf_iff hblock).1 hw'
  rw [Solution.value?, h.get?_values hg, hnode, Option.bind_some, hb, hv]
  exact v.value?_of_mem hg hblock hnodes hw

/-! ## How a run ends -/

/-- The ways in which a run ends in a state: nothing waits, or the caller or the cap keeps the next
block from being visited. -/
inductive Ends (a : Analysis V S) (s : RunState V S) : Run V S → Prop
  | finished : s.queue = [] → Ends a s ⟨s.emit (.fixpointReached s.totalVisits), none⟩
  | cancelled {b : BlockId} {rest : List BlockId} : s.queue = b :: rest →
    a.cancelled { s with queue := rest } →
    Ends a s ⟨RunState.emit { s with queue := rest } (.cancelled b), some .cancelled⟩
  | exceeded {b : BlockId} {rest : List BlockId} : s.queue = b :: rest →
    a.config.exceeded (s.visitsOf b + 1) →
    Ends a s
      ⟨{ s with
          queue := rest
          visits := s.visits.insert b (s.visitsOf b + 1)
          totalVisits := s.totalVisits + 1 },
        some (.nonConvergence b (s.visitsOf b + 1))⟩

theorem ends_of_step_eq_ended {r : Run V S} (h : a.step g s = .ended r) : a.Ends s r := by
  unfold step at h
  split at h
  case h_1 hqueue =>
    cases h
    exact .finished hqueue
  case h_2 b rest hqueue =>
    simp only [visitBlock] at h
    split_ifs at h with hcancel hcap
    · cases h
      exact .cancelled hqueue hcancel
    · cases h
      exact .exceeded hqueue hcap
    · split at h <;> cases h

/-- The visit of a block that waits finds the block, and a state to begin with. -/
theorem RunInv.exists_of_mem_queue (h : a.RunInv g visits s) {b : BlockId} (hb : b ∈ s.queue) :
    ∃ block entry, g.block? b = some block ∧ s.before.get? b = some entry := by
  obtain ⟨entry, hentry⟩ := Option.isSome_iff_exists.1 (h.waiting_recorded hb)
  exact ⟨_, entry, Array.getElem?_eq_getElem (h.recorded_lt hentry), hentry⟩

theorem RunInv.exists_ended (h : a.RunInv g visits s) (hv : a.nextVisit? g s = none) :
    ∃ r, a.step g s = .ended r := by
  unfold step
  unfold nextVisit? at hv
  rcases hqueue : s.queue with _ | ⟨b, rest⟩ <;> rw [hqueue] at hv
  · exact ⟨_, rfl⟩
  · obtain ⟨block, entry, hblock, hentry⟩ := h.exists_of_mem_queue (b := b) (by simp [hqueue])
    simp only [hblock, hentry, ite_eq_left_iff, reduceCtorEq, imp_false, not_not,
      Bool.or_eq_true] at hv
    simp only [visitBlock]
    split_ifs with hcancel hcap
    · exact ⟨_, rfl⟩
    · exact ⟨_, rfl⟩
    · exact absurd hv (not_or.2 ⟨hcancel, hcap⟩)

/-- A step makes the next visit, or ends the run if there is none. -/
theorem Reaches.step_cases (hg : g.WellFormed) (h : a.Reaches g visits s) :
    (a.nextVisit? g s = none ∧ ∃ r, a.step g s = .ended r) ∨
      ∃ v, a.nextVisit? g s = some v ∧ a.step g s = .running (s.visited a.config g v) ∧
        a.Reaches g (visits ++ [v]) (s.visited a.config g v) := by
  rcases hv : a.nextVisit? g s with _ | v
  · exact .inl ⟨rfl, (h.runInv hg).exists_ended hv⟩
  · exact .inr ⟨v, rfl, step_of_nextVisit? hg hv, h.visit hv⟩

theorem runFrom_ended (fuel : Nat) (r : Run V S) : a.runFrom g fuel (.ended r) = some r := by
  cases fuel <;> rfl

theorem visitsFrom_ended (fuel : Nat) (r : Run V S) : a.visitsFrom g fuel (.ended r) = [] := by
  cases fuel <;> rfl

/-- A state that the run has reached, after the visits that the fuel pays for; if the run ends by
then, it ends in this state. -/
theorem exists_reaches_visitsFrom (hg : g.WellFormed) :
    ∀ (fuel : Nat) {visits : List (BlockVisit V S)} {s : RunState V S}, a.Reaches g visits s →
      ∃ s', a.Reaches g (visits ++ a.visitsFrom g fuel (.running s)) s' ∧
        ∀ r, a.runFrom g fuel (.running s) = some r → a.Ends s' r
  | 0, _, s, h => ⟨s, by simpa [visitsFrom] using h, fun r hr => by cases hr⟩
  | fuel + 1, visits, s, h => by
    simp only [visitsFrom, runFrom]
    rcases h.step_cases hg with ⟨hv, r, hstep⟩ | ⟨v, hv, hstep, hnext⟩ <;> rw [hv, hstep]
    · refine ⟨s, by simpa [visitsFrom_ended] using h, fun r' hr' => ?_⟩
      rw [runFrom_ended, Option.some.injEq] at hr'
      exact hr' ▸ ends_of_step_eq_ended hstep
    · obtain ⟨s', hs', hend⟩ := exists_reaches_visitsFrom hg fuel hnext
      exact ⟨s', by simpa using hs', hend⟩

theorem start_cases (a : Analysis V S) (g : Graph) :
    (∃ b, a.start g = .ended ⟨.empty, some (.unreachableBlock b)⟩) ∨
      ∃ s, a.start g = .running s := by
  unfold start
  split
  · exact .inl ⟨_, rfl⟩
  · exact .inr ⟨_, rfl⟩

/-- A run that dead code does not keep from starting gets somewhere by its visits, and ends there if
it ends. -/
theorem exists_reaches_visitsFor (hg : g.WellFormed) (fuel : Nat) :
    (∃ b, a.visitsFor g fuel = [] ∧
      a.runFor g fuel = some ⟨.empty, some (.unreachableBlock b)⟩) ∨
    ∃ s, a.Reaches g (a.visitsFor g fuel) s ∧ ∀ r, a.runFor g fuel = some r → a.Ends s r := by
  unfold visitsFor runFor
  rcases start_cases a g with ⟨b, hstart⟩ | ⟨s, hstart⟩
  · rw [hstart, visitsFrom_ended, runFrom_ended]
    exact .inl ⟨b, rfl, rfl⟩
  · rw [hstart]
    exact .inr (exists_reaches_visitsFrom hg fuel (.start hstart))

/-- A run that finds a solution ends where it has got to when nothing waits. -/
theorem finished_of_result_eq_ok (hg : g.WellFormed) {fuel : Nat} {r : Run V S}
    {sol : Solution V S} (hr : a.runFor g fuel = some r) (hsol : r.result = .ok sol) :
    ∃ s, a.Reaches g (a.visitsFor g fuel) s ∧ s.queue = [] ∧
      r = ⟨s.emit (.fixpointReached s.totalVisits), none⟩ := by
  rcases exists_reaches_visitsFor (a := a) hg fuel with ⟨b, -, hr'⟩ | ⟨s, hs, hends⟩
  · obtain rfl := Option.some.inj (hr.symm.trans hr')
    cases hsol
  · cases hends r hr with
    | finished hqueue => exact ⟨s, hs, hqueue, rfl⟩
    | cancelled _ _ => cases hsol
    | exceeded _ _ => cases hsol

theorem reaches_of_result_eq_ok (hg : g.WellFormed) {fuel : Nat} {r : Run V S}
    {sol : Solution V S} (hr : a.runFor g fuel = some r) (hsol : r.result = .ok sol) :
    ∃ s, a.Reaches g (a.visitsFor g fuel) s ∧ s.queue = [] ∧ s.toSolution = sol := by
  obtain ⟨s, hs, hqueue, rfl⟩ := finished_of_result_eq_ok hg hr hsol
  exact ⟨s, hs, hqueue, Except.ok.inj hsol⟩

/-- The graph that these operations build, with the solution that a run over it finds. -/
def solve? (a : Analysis V S) (operations : List Operation) (fuel : Nat) :
    Option (Graph × Solution V S) :=
  match Graph.build operations with
  | .error _ => none
  | .ok g => ((a.runFor g fuel).map Run.result).bind fun
    | .error _ => none
    | .ok sol => some (g, sol)

theorem solve?_eq_some {operations : List Operation} {fuel : Nat} {sol : Solution V S}
    (h : a.solve? operations fuel = some (g, sol)) :
    Graph.build operations = .ok g ∧ ∃ r, a.runFor g fuel = some r ∧ r.result = .ok sol := by
  unfold solve? at h
  split at h
  · cases h
  rename_i g' hbuild
  obtain ⟨result, hresult, h⟩ := Option.bind_eq_some_iff.1 h
  obtain ⟨r, hr, rfl⟩ := Option.map_eq_some_iff.1 hresult
  split at h
  · cases h
  rename_i sol' hsol
  cases h
  exact ⟨hbuild, r, hr, hsol⟩

end Analysis

end Dataflow
