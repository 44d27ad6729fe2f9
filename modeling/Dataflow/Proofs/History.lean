import Dataflow.Analysis.Run
import Dataflow.Proofs.Receive
import Mathlib.Data.List.Induction

/-!
# Histories of runs

A run is a sequence of block visits. `Analysis.visitsFor` lists those of a run, and `Reaches` is the
same list with the state that the run is in after them. What taking in a state keeps, and what a
visit keeps before it sends anything, every state of a run has (`Reaches.induction`).
-/

namespace Dataflow

structure BlockVisit (V S : Type) where
  block : Block
  entry : S
  nodes : List (NodeVisit V S)

variable {V S : Type}

/-- The last visit of a block, in a list that has the latest visit at its end. -/
def lastVisit? (visits : List (BlockVisit V S)) (b : BlockId) : Option (BlockVisit V S) :=
  visits.reverse.find? (·.block.id = b)

@[simp] theorem lastVisit?_nil (b : BlockId) : lastVisit? ([] : List (BlockVisit V S)) b = none :=
  rfl

theorem lastVisit?_concat (visits : List (BlockVisit V S)) (v : BlockVisit V S) (b : BlockId) :
    lastVisit? (visits ++ [v]) b = if b = v.block.id then some v else lastVisit? visits b := by
  simp only [lastVisit?, List.reverse_append, List.reverse_cons, List.reverse_nil, List.nil_append,
    List.singleton_append, List.find?_cons]
  by_cases h : v.block.id = b
  · simp [h]
  · rw [if_neg (Ne.symm h)]
    simp [h]

theorem mem_of_lastVisit?_eq_some {visits : List (BlockVisit V S)} {b : BlockId}
    {v : BlockVisit V S} (h : lastVisit? visits b = some v) : v ∈ visits ∧ v.block.id = b :=
  ⟨List.mem_reverse.1 (List.mem_of_find?_eq_some h), by simpa using List.find?_some h⟩

theorem isSome_lastVisit? {visits : List (BlockVisit V S)} {v : BlockVisit V S}
    (h : v ∈ visits) : (lastVisit? visits v.block.id).isSome := by
  rw [lastVisit?, List.find?_isSome]
  exact ⟨v, List.mem_reverse.2 h, by simp⟩

theorem isSome_lastVisit?_iff {visits : List (BlockVisit V S)} {b : BlockId} :
    (lastVisit? visits b).isSome ↔ 0 < visits.countP (·.block.id = b) := by
  rw [List.countP_pos_iff]
  constructor
  · intro h
    obtain ⟨v, hv⟩ := Option.isSome_iff_exists.1 h
    obtain ⟨hmem, hvb⟩ := mem_of_lastVisit?_eq_some hv
    exact ⟨v, hmem, decide_eq_true hvb⟩
  · rintro ⟨v, hmem, hvb⟩
    rw [← of_decide_eq_true hvb]
    exact isSome_lastVisit? hmem

/-! ## Values -/

/-- The values that these visits leave, the latest value of every node. -/
def valuesOf (visits : List (BlockVisit V S)) : Table V :=
  visits.foldl (fun values v => Pass.valuesAfter values v.nodes) .empty

theorem valuesOf_concat (visits : List (BlockVisit V S)) (v : BlockVisit V S) :
    valuesOf (visits ++ [v]) = Pass.valuesAfter (valuesOf visits) v.nodes := by
  rw [valuesOf, List.foldl_concat, valuesOf]

theorem get?_valuesOf_eq (visits : List (BlockVisit V S)) (n : NodeId) :
    (valuesOf visits).get? n =
      (lastNodeVisit? (visits.flatMap (·.nodes)) n).map (·.result.value) := by
  have hfold : valuesOf visits = Pass.valuesAfter .empty (visits.flatMap (·.nodes)) := by
    rw [valuesOf, Pass.valuesAfter, List.foldl_flatMap]
    rfl
  rw [hfold, Pass.valuesAfter, get?_foldl_insert, Table.get?_empty, Option.or_none]

namespace BlockVisit

def value? (v : BlockVisit V S) (n : NodeId) : Option V :=
  (v.nodes.find? (·.node.id = n)).map (·.result.value)

variable {g : Graph} (hg : g.WellFormed) {v : BlockVisit V S}
  (hblock : g.block? v.block.id = some v.block) (hnodes : v.nodes.map (·.node) = g.nodesOf v.block)

include hg hblock hnodes

theorem isSome_value?_iff (n : NodeId) :
    (v.value? n).isSome ↔ ∃ node, g.node? n = some node ∧ node.block = v.block.id := by
  rw [value?, Option.isSome_map, List.find?_isSome]
  constructor
  · rintro ⟨w, hw, hwn⟩
    have hmem : w.node ∈ g.nodesOf v.block := hnodes ▸ List.mem_map_of_mem hw
    rw [hg.mem_nodesOf_iff hblock, of_decide_eq_true hwn] at hmem
    exact ⟨w.node, hmem⟩
  · rintro ⟨node, hnode, hb⟩
    have hid : node.id = n := hg.node_id hnode
    have hmem : node ∈ v.nodes.map (·.node) :=
      hnodes ▸ (hg.mem_nodesOf_iff hblock).2 ⟨hid ▸ hnode, hb⟩
    obtain ⟨w, hw, rfl⟩ := List.mem_map.1 hmem
    exact ⟨w, hw, decide_eq_true hid⟩

theorem nodup_ids : (v.nodes.map (·.node.id)).Nodup := by
  have hmap : v.nodes.map (·.node.id) = (v.nodes.map (·.node)).map Node.id := by simp
  rw [hmap, hnodes]
  exact hg.nodup_map_id_nodesOf hblock

theorem get?_valuesAfter (values : Table V) (n : NodeId) :
    (Pass.valuesAfter values v.nodes).get? n = (v.value? n).or (values.get? n) :=
  Pass.get?_valuesAfter n v.nodes values (nodup_ids hg hblock hnodes)

theorem value?_of_mem {w : NodeVisit V S} (hw : w ∈ v.nodes) :
    v.value? w.node.id = some w.result.value := by
  have hnodup := nodup_ids hg hblock hnodes
  rw [value?, ← lastNodeVisit?_eq_find? hnodup, lastNodeVisit?_of_mem hnodup hw, Option.map_some]

end BlockVisit

section LastVisits

variable {g : Graph} (hg : g.WellFormed) (n : NodeId) (visits : List (BlockVisit V S))
  (hblock : ∀ v ∈ visits, g.block? v.block.id = some v.block)
  (hnodes : ∀ v ∈ visits, v.nodes.map (·.node) = g.nodesOf v.block)

include hg hblock hnodes

/-- The last visit of a node is the one in the last visit of its block. -/
theorem lastNodeVisit?_flatMap_nodes :
    lastNodeVisit? (visits.flatMap (·.nodes)) n =
      (g.node? n).bind fun node =>
        (lastVisit? visits node.block).bind fun v => v.nodes.find? (·.node.id = n) := by
  -- from the end, since a later visit decides unless the node is not in its block
  induction visits using List.reverseRecOn with
  | nil => cases g.node? n <;> rfl
  | append_singleton visits v ih =>
    have hv : v ∈ visits ++ [v] := by simp
    have ih := ih (fun w hw => hblock w (List.mem_append_left _ hw))
      fun w hw => hnodes w (List.mem_append_left _ hw)
    have hsome := BlockVisit.isSome_value?_iff hg (hblock v hv) (hnodes v hv) n
    rw [BlockVisit.value?, Option.isSome_map] at hsome
    rw [List.flatMap_append, List.flatMap_singleton, lastNodeVisit?_append,
      lastNodeVisit?_eq_find? (BlockVisit.nodup_ids hg (hblock v hv) (hnodes v hv)), ih]
    rcases hn : g.node? n with _ | node
    · rw [hn] at hsome
      have hnone : v.nodes.find? (·.node.id = n) = none := by simpa using hsome
      simp [hnone]
    · simp only [hn, Option.some.injEq, exists_eq_left'] at hsome
      simp only [Option.bind_some, lastVisit?_concat]
      split_ifs with hb
      · rw [← hsome] at hb
        obtain ⟨w, hw⟩ := Option.isSome_iff_exists.1 hb
        simp [hw]
      · have hnone : v.nodes.find? (·.node.id = n) = none := by simpa using mt hsome.1 hb
        simp [hnone]

/-- The value of a node is the one that the last visit of its block has found. -/
theorem get?_valuesOf :
    (valuesOf visits).get? n =
      (g.node? n).bind fun node => (lastVisit? visits node.block).bind (·.value? n) := by
  rw [get?_valuesOf_eq, lastNodeVisit?_flatMap_nodes hg n visits hblock hnodes]
  simp only [Option.map_bind, Function.comp_def]
  rfl

end LastVisits

/-! ## Steps -/

variable [DecidableEq S] [AbstractDomain S]

namespace BlockVisit

def outflow (v : BlockVisit V S) : Outflow S :=
  Pass.outflow v.block.shape v.entry v.nodes

def sent (v : BlockVisit V S) (e : Edge) : Option S :=
  Pass.sent v.block.shape v.entry v.nodes e

end BlockVisit

namespace RunState

/-- The state in which a visit begins to send: the block is off the queue and counted, and what its
nodes have come to is kept. -/
def opened (c : AnalysisConfig) (s : RunState V S) (v : BlockVisit V S) : RunState V S :=
  let visits := s.visitsOf v.block.id + 1
  { before := s.before
    after := s.after.insert v.block.id v.outflow
    values := Pass.valuesAfter s.values v.nodes
    nodeStates :=
      if c.recordNodeStores then
        v.nodes.foldl (fun states n => states.insert n.node.id n.state) s.nodeStates
      else s.nodeStates
    visits := s.visits.insert v.block.id visits
    totalVisits := s.totalVisits + 1
    statuses := s.statuses.insert v.block.id .processing
    updates := s.updates
    queue := s.queue.tail
    events := s.events.push (.visiting v.block.id v.block.kind visits) ++
      (v.nodes.flatMap fun n => n.notes.map Event.noted).toArray
    log := s.log ++ v.nodes.toArray }

/-- The state after a visit: its block is stable, unless the visit has made it wait again. -/
def closed (s : RunState V S) (b : BlockId) : RunState V S :=
  if s.status b = .processing then s.setStatus b .stable else s

def visited (c : AnalysisConfig) (g : Graph) (s : RunState V S) (v : BlockVisit V S) :
    RunState V S :=
  ((Sending.all v.block.shape v.entry v.nodes).foldl (deliver c g v.block.id)
    (s.opened c v)).closed v.block.id

omit [DecidableEq S] [AbstractDomain S] in
theorem foldl_keepVisit (c : AnalysisConfig) :
    ∀ (visits : List (NodeVisit V S)) (s : RunState V S), visits.foldl (keepVisit c) s =
      { s with
        values := Pass.valuesAfter s.values visits
        nodeStates :=
          if c.recordNodeStores then
            visits.foldl (fun states n => states.insert n.node.id n.state) s.nodeStates
          else s.nodeStates
        events := s.events ++ (visits.flatMap fun n => n.notes.map Event.noted).toArray
        log := s.log ++ visits.toArray }
  | [], s => by simp [Pass.valuesAfter]
  | n :: rest, s => by
    rw [List.foldl_cons, foldl_keepVisit c rest]
    simp only [keepVisit, Pass.valuesAfter, List.foldl_cons, List.flatMap_cons, RunState.mk.injEq,
      Solution.mk.injEq, true_and, and_true]
    refine ⟨?_, by simp, by simp⟩
    split <;> rfl

end RunState

namespace Analysis

variable (a : Analysis V S) (g : Graph)

/-- The visit that the next step makes, if it makes one. -/
def nextVisit? (s : RunState V S) : Option (BlockVisit V S) :=
  match s.queue with
  | [] => none
  | b :: rest =>
    if a.cancelled { s with queue := rest } || a.config.exceeded (s.visitsOf b + 1) then none
    else
      match g.block? b, s.before.get? b with
      | some block, some entry =>
        some ⟨block, entry, a.transfer.pass g.nodes s.values entry (g.nodesOf block)⟩
      | _, _ => none

def visitsFrom (a : Analysis V S) (g : Graph) : Nat → Progress V S → List (BlockVisit V S)
  | fuel + 1, .running s => (a.nextVisit? g s).toList ++ a.visitsFrom g fuel (a.step g s)
  | _, _ => []

def visitsFor (fuel : Nat) : List (BlockVisit V S) :=
  a.visitsFrom g fuel (a.start g)

/-- The run gets into this state by these visits. -/
inductive Reaches : List (BlockVisit V S) → RunState V S → Prop
  | start {s : RunState V S} : a.start g = .running s → Reaches [] s
  | visit {visits : List (BlockVisit V S)} {s : RunState V S} {v : BlockVisit V S} :
    Reaches visits s → a.nextVisit? g s = some v → Reaches (visits ++ [v]) (s.visited a.config g v)

variable {a g}

theorem nextVisit?_eq_some {s : RunState V S} {v : BlockVisit V S}
    (h : a.nextVisit? g s = some v) :
    ∃ b rest, s.queue = b :: rest ∧ g.block? b = some v.block ∧ s.before.get? b = some v.entry ∧
      v.nodes = a.transfer.pass g.nodes s.values v.entry (g.nodesOf v.block) ∧
      a.cancelled { s with queue := rest } = false ∧
      a.config.exceeded (s.visitsOf b + 1) = false := by
  unfold nextVisit? at h
  split at h
  · cases h
  rename_i b rest hqueue
  split_ifs at h with hstop
  split at h
  · rename_i block entry hblock hentry
    cases h
    simp only [Bool.or_eq_true, not_or, Bool.not_eq_true] at hstop
    exact ⟨b, rest, hqueue, hblock, hentry, rfl, hstop.1, hstop.2⟩
  · cases h

/-- The visit comes next: its block is the first that waits, and it begins with the state recorded
there. -/
structure NextVisit (a : Analysis V S) (g : Graph) (s : RunState V S) (v : BlockVisit V S) :
    Prop where
  queue : ∃ rest, s.queue = v.block.id :: rest
  block : g.block? v.block.id = some v.block
  entry : s.before.get? v.block.id = some v.entry
  nodes : v.nodes = a.transfer.pass g.nodes s.values v.entry (g.nodesOf v.block)

theorem nextVisit_of_eq_some (hg : g.WellFormed) {s : RunState V S} {v : BlockVisit V S}
    (h : a.nextVisit? g s = some v) : a.NextVisit g s v := by
  obtain ⟨b, rest, hqueue, hblock, hentry, hnodes, -, -⟩ := nextVisit?_eq_some h
  obtain rfl := hg.block_id hblock
  exact ⟨⟨rest, hqueue⟩, hblock, hentry, hnodes⟩

theorem NextVisit.mem_queue {s : RunState V S} {v : BlockVisit V S} (h : a.NextVisit g s v) :
    v.block.id ∈ s.queue := by
  obtain ⟨rest, hqueue⟩ := h.queue
  simp [hqueue]

theorem NextVisit.map_node_nodes {s : RunState V S} {v : BlockVisit V S} (h : a.NextVisit g s v) :
    v.nodes.map (·.node) = g.nodesOf v.block := by
  rw [h.nodes, nodes_pass]

theorem step_of_nextVisit? (hg : g.WellFormed) {s : RunState V S} {v : BlockVisit V S}
    (h : a.nextVisit? g s = some v) : a.step g s = .running (s.visited a.config g v) := by
  obtain ⟨b, rest, hqueue, hblock, hentry, hnodes, hcancel, hcap⟩ := nextVisit?_eq_some h
  have hid : v.block.id = b := hg.block_id hblock
  simp only [step, hqueue, hcancel, Bool.false_eq_true, if_false, visitBlock]
  have hvisits : ∀ queue, Solution.visitsOf { s with queue := queue }.toSolution b = s.visitsOf b :=
    fun _ => rfl
  rw [hvisits, if_neg (by simp [hcap])]
  simp only [RunState.setStatus, hblock, hentry]
  subst hid
  simp only [RunState.process, RunState.visited, RunState.closed, RunState.foldl_keepVisit,
    RunState.opened, RunState.emit, ← hnodes, hqueue, List.tail_cons, BlockVisit.outflow]

/-! ## Along a run -/

variable (a g)

/-- A state that comes to a block: the initial state, or what one of the visits sends there. -/
def Arrives (visits : List (BlockVisit V S)) (target : BlockId) (state : S) : Prop :=
  target = entryBlock ∧ state = a.transfer.initial g ∨
    ∃ v ∈ visits, ∃ e, (e, target) ∈ v.block.shape.edges ∧ v.sent e = some state

variable {a g}

theorem exists_of_start_eq_running {s : RunState V S} (h : a.start g = .running s) :
    ∃ events, s = RunState.receive a.config g { RunState.empty with events := events }
      entryBlock entryBlock (a.transfer.initial g) := by
  unfold start at h
  split at h
  · cases h
  · cases h
    split
    · exact ⟨_, rfl⟩
    · exact ⟨_, rfl⟩

theorem Reaches.induction {P : List (BlockVisit V S) → RunState V S → Prop}
    (empty : P [] .empty)
    (events : ∀ {visits s} events, P visits s → P visits { s with events := events })
    (receive : ∀ {visits s} source {target state}, a.Arrives g visits target state →
      P visits s → P visits (s.receive a.config g source target state))
    (opened : ∀ {visits s v}, a.nextVisit? g s = some v → P visits s →
      P (visits ++ [v]) (s.opened a.config v))
    (closed : ∀ {visits s} b, P visits s → P visits (s.closed b)) :
    ∀ {visits s}, a.Reaches g visits s → P visits s := by
  intro visits s h
  induction h with
  | start h =>
    obtain ⟨events', rfl⟩ := exists_of_start_eq_running h
    exact receive _ (.inl ⟨rfl, rfl⟩) (events events' empty)
  | @visit visits s v h hv ih =>
    refine closed _ (RunState.foldl_deliver_induction (P := P (visits ++ [v])) _ _ _ _
      (fun _ es h => events es h) (fun s sending target state hmem hcarried h => ?_) _
      (opened hv ih))
    obtain ⟨e, he, hsent⟩ := Sending.mem_carried_all_iff.1 ⟨sending, hmem, hcarried⟩
    exact receive _ (.inr ⟨v, by simp, e, he, hsent⟩) h

/-- What a block's taking in a state brings about, and nothing undoes, holds once the state has come
to the block. -/
theorem Reaches.of_arrives {b : BlockId} {x : S} {P : RunState V S → Prop}
    (arrived : ∀ (s : RunState V S) source, P (s.receive a.config g source b x))
    (events : ∀ {s} events, P s → P { s with events := events })
    (receive : ∀ {s} source target state, P s → P (s.receive a.config g source target state))
    (opened : ∀ {s} v, P s → P (s.opened a.config v)) (closed : ∀ {s} b, P s → P (s.closed b))
    {visits : List (BlockVisit V S)} {s : RunState V S} (h : a.Reaches g visits s)
    (harrives : a.Arrives g visits b x) : P s := by
  have hdeliver : ∀ source (sendings : List (Sending S)) {s : RunState V S}, P s →
      P (sendings.foldl (RunState.deliver a.config g source) s) := fun source sendings s h =>
    RunState.foldl_deliver_induction a.config g source sendings (fun _ es h => events es h)
      (fun _ _ target state _ _ h => receive source target state h) s h
  induction h with
  | start hstart =>
    rcases harrives with ⟨rfl, rfl⟩ | ⟨v, hv, -⟩
    · obtain ⟨events, rfl⟩ := exists_of_start_eq_running hstart
      exact arrived _ _
    · cases hv
  | @visit visits s v _ _ ih =>
    refine closed _ ?_
    rcases harrives with hinit | ⟨w, hw, e, he, hsent⟩
    · exact hdeliver _ _ (opened v (ih (.inl hinit)))
    rcases List.mem_append.1 hw with hw | hw
    · exact hdeliver _ _ (opened v (ih (.inr ⟨w, hw, e, he, hsent⟩)))
    · obtain rfl := List.mem_singleton.1 hw
      obtain ⟨sending, hmem, hcarried⟩ := Sending.mem_carried_all_iff.2 ⟨e, he, hsent⟩
      obtain ⟨pre, post, heq⟩ := List.append_of_mem hmem
      rw [heq, List.foldl_append, List.foldl_cons]
      refine hdeliver _ post ?_
      cases sending with
      | withheld branch rule => cases hcarried
      | normal target state | thrown _ target state =>
        cases hcarried
        exact arrived _ _

end Analysis

end Dataflow
