import Dataflow.Proofs.Recorded
import Dataflow.Proofs.SinglePass

/-!
# Statuses

A block stays unvisited until a state is recorded at it, and no block is processing but the one that
is being visited (`RunState.Marked`). This holds from one sending of a visit to the next, also where
the visited block leads back to itself and a sending makes it wait again before the visit is over.
Between two visits no block is processing, so that the status of a block tells whether it waits, has
settled on its recorded state or has not been come to (`rests_of_stateAfter`).
-/

namespace Dataflow

variable {V S : Type}

/-! ## During a visit -/

namespace RunState

/-- Exactly the blocks without a recorded state are unvisited, and a block that is processing is the
one that is being visited. -/
structure Marked (visiting : Option BlockId) (s : RunState V S) : Prop where
  unvisited_iff : ∀ b, s.status b = .unvisited ↔ s.before.get? b = none
  processing : ∀ {b}, s.status b = .processing → visiting = some b

namespace Marked

variable {s : RunState V S} {visiting : Option BlockId}

theorem empty : (RunState.empty : RunState V S).Marked none where
  unvisited_iff := fun _ => by simp [RunState.empty, RunState.status, Solution.empty]
  processing := nofun

theorem events (h : s.Marked visiting) (events : Array Event) :
    Marked visiting { s with events := events } :=
  ⟨h.unvisited_iff, h.processing⟩

theorem closed {b : BlockId} (h : s.Marked (some b)) : (s.closed b).Marked none where
  unvisited_iff := fun x => by
    rw [before_closed, ← h.unvisited_iff, status_closed]
    grind
  processing := fun hx => by
    rw [status_closed] at hx
    split at hx
    · cases hx
    · rename_i hne
      obtain rfl := Option.some.inj (h.processing hx)
      exact absurd ⟨rfl, hx⟩ hne

theorem stable_of_not_mem_queue (h : s.Marked none) (hqueue : s.QueueInv) {b : BlockId}
    (hb : (s.before.get? b).isSome) (hwaits : b ∉ s.queue) : s.status b = .stable := by
  cases hstatus : s.status b with
  | unvisited => simp [(h.unvisited_iff b).1 hstatus] at hb
  | queued => exact absurd ((hqueue.mem_iff b).2 hstatus) hwaits
  | processing => cases h.processing hstatus
  | stable => rfl

variable [DecidableEq S] [AbstractDomain S]

/-- A block that is visited and takes in a greater state itself waits from then on. -/
theorem receive (h : s.Marked visiting) (c : AnalysisConfig) (g : Graph)
    (source target : BlockId) (incoming : S) :
    (s.receive c g source target incoming).Marked visiting where
  unvisited_iff := fun b => by
    have hb := h.unvisited_iff b
    rw [status_receive, get?_before_receive]
    grind
  processing := fun hb => by
    rw [status_receive] at hb
    split at hb
    · cases hb
    · exact h.processing hb

theorem opened (h : s.Marked none) (c : AnalysisConfig) {v : BlockVisit V S}
    (hv : s.before.get? v.block.id = some v.entry) :
    (s.opened c v).Marked (some v.block.id) where
  unvisited_iff := fun b => by
    rw [status_opened]
    split
    · subst_vars
      simp [RunState.opened, hv]
    · exact h.unvisited_iff b
  processing := fun {b} hb => by
    rw [status_opened] at hb
    split at hb
    · subst_vars
      rfl
    · cases h.processing hb

end Marked

end RunState

/-! ## Between visits -/

variable [DecidableEq S] [AbstractDomain S]

namespace Analysis

variable {a : Analysis V S} {g : Graph} {visits : List (BlockVisit V S)} {s : RunState V S}

/-- What holds of the queue, the statuses and the counts of a run between two visits. -/
structure Rests (a : Analysis V S) (g : Graph) (visits : List (BlockVisit V S))
    (s : RunState V S) : Prop where
  /-- Blocks wait once, and only those of status `queued` wait. -/
  count_queue : ∀ b, s.queue.count b = if s.status b = .queued then 1 else 0
  /-- In reverse postorder, blocks wait by position. -/
  sorted : a.config.order = .reversePostorder →
    s.queue.Pairwise fun b c => g.position b < g.position c
  /-- A block that waits has a recorded state, and a place in the reverse postorder. -/
  waiting : ∀ b, s.status b = .queued →
    (∃ x, s.before.get? b = some x) ∧ g.Leads entryBlock b ∧ g.order[g.position b]? = some b
  /-- A recorded state that does not wait is the one that the block's last visit began with. -/
  settled : ∀ b x, s.before.get? b = some x → s.status b ≠ .queued →
    s.status b = .stable ∧ ∃ v, lastVisit? visits b = some v ∧ v.entry = x
  unvisited : ∀ b, s.before.get? b = none → s.status b = .unvisited
  visitsOf_eq : ∀ b, s.visitsOf b = visits.countP (·.block.id = b)
  /-- Every visit but the first uses up an update, and so will the visit that a block waits for. -/
  visits_le : ∀ b,
    s.visitsOf b + (if s.status b = .queued then 1 else 0) ≤ 1 + s.updatesOf b

variable (hg : g.WellFormed)

include hg

theorem Reaches.marked (h : a.Reaches g visits s) : s.Marked none := by
  -- On the visits; each of them goes through states in which its own block may be processing.
  induction h with
  | start hstart =>
    obtain ⟨events, rfl⟩ := exists_of_start_eq_running hstart
    exact (RunState.Marked.empty.events events).receive _ _ _ _ _
  | visit _ hv ih =>
    refine RunState.Marked.closed (RunState.foldl_deliver_induction _ _ _ _
      (fun _ es h => h.events es) (fun _ _ _ _ _ _ h => h.receive _ _ _ _ _) _ ?_)
    exact ih.opened _ (nextVisit_of_eq_some hg hv).entry

theorem Reaches.rests (h : a.Reaches g visits s) : a.Rests g visits s := by
  have hinv := h.runInv hg
  have hmarked := h.marked hg
  have hwaits := hinv.queueInv.mem_iff
  refine
    { count_queue := fun b => ?_
      sorted := fun horder => h.pairwise_position hg horder
      waiting := fun b hb => ?_
      settled := fun b x hb hstatus => ?_
      unvisited := fun b => (hmarked.unvisited_iff b).2
      visitsOf_eq := h.accounts.visitsOf
      visits_le := fun b => ?_ }
  · rw [hinv.queueInv.nodup.count]
    exact if_congr (hwaits b) rfl rfl
  · have hmem := (hwaits b).2 hb
    have horder := h.mem_order_of_mem_queue hg hmem
    exact ⟨Option.isSome_iff_exists.1 (hinv.waiting_recorded hmem), hg.mem_order_iff.1 horder,
      List.getElem?_idxOf horder⟩
  · have hmem : b ∉ s.queue := mt (hwaits b).1 hstatus
    have hsome : (s.before.get? b).isSome := Option.isSome_iff_exists.2 ⟨x, hb⟩
    exact ⟨hmarked.stable_of_not_mem_queue hinv.queueInv hsome hmem,
      (hinv.settled hb).resolve_left hmem⟩
  · have hle := h.visits_le_updates hg b
    have hfirst : (if (s.before.get? b).isSome then 1 else 0) ≤ 1 := by
      split <;> decide
    simp only [hwaits] at hle
    rw [h.accounts.visitsOf]
    omega

end Analysis

/-- In whatever state a run is between two visits, every step so far has been a visit, and the queue
holds the blocks of status `queued`, each once. They have recorded states and places in the reverse
postorder, so that the visit of the first one finds its block and a state to begin with. Any other
block with a recorded state is stable, and its last visit began with this state. All others are
unvisited. -/
theorem rests_of_stateAfter {operations : List Operation} {g : Graph}
    (hbuild : Graph.build operations = .ok g) {a : Analysis V S} {k : Nat} {s : RunState V S}
    (hs : a.stateAfter g k = some s) :
    (a.visitsFor g k).length = k ∧ a.Rests g (a.visitsFor g k) s ∧
      ∀ b rest, s.queue = b :: rest →
        ∃ block entry, g.block? b = some block ∧ s.before.get? b = some entry := by
  have hg := wellFormed_of_build hbuild
  obtain ⟨visits, rfl, h⟩ := Analysis.exists_reaches_of_stateAfter hg hs
  rw [h.visitsFor_length hg]
  exact ⟨rfl, h.rests hg, fun b rest hqueue =>
    (h.runInv hg).exists_of_mem_queue (by simp [hqueue])⟩

/-- A block that counts twice and handles itself what is thrown in between. -/
def selfHandled : List Operation :=
  [.addExceptional, .pushNode 3 (.marker "first"), .pushNode 3 (.marker "second"), .connect 0 3,
    .connect 3 1, .addHandler 3 "Retry" 3]

def selfHandledGraph : Graph :=
  .ofTables
    #[⟨0, .entry 3⟩, ⟨1, .exit⟩, ⟨2, .exceptionalExit⟩,
      ⟨3, .exceptional [0, 1] 1 ⟨[("Retry", 3)], by decide⟩⟩]
    #[⟨0, 3, .marker "first"⟩, ⟨1, 3, .marker "second"⟩]

/-- The first visit of the block makes the exit wait and then the block itself, which turns from
processing to queued and stands before the exit. -/
theorem rests_selfHandled :
    let a := countingFromZero none { order := .reversePostorder }
    ∃ g s, Graph.build selfHandled = .ok g ∧ a.stateAfter g 2 = some s ∧ s.queue = [3, 1] ∧
      (s.status 0 = .stable ∧ s.status 2 = .unvisited ∧ s.status 3 = .queued) ∧
      (s.visitsOf 3 = 1 ∧ s.updatesOf 3 = 1) ∧
      (a.visitsFor g 2).length = 2 ∧ a.Rests g (a.visitsFor g 2) s ∧
      ∀ b rest, s.queue = b :: rest →
        ∃ block entry, g.block? b = some block ∧ s.before.get? b = some entry := by
  intro a
  have hbuild : Graph.build selfHandled = .ok selfHandledGraph := rfl
  have hstate : (a.stateAfter selfHandledGraph 2).any fun s => s.queue = [3, 1] ∧
      (s.status 0 = .stable ∧ s.status 2 = .unvisited ∧ s.status 3 = .queued) ∧
      (s.visitsOf 3 = 1 ∧ s.updatesOf 3 = 1) := by
    decide +kernel
  obtain ⟨s, hs, hmarks⟩ := (Option.any_eq_true _ _).1 hstate
  obtain ⟨hqueue, hstatus, hcounts⟩ := of_decide_eq_true hmarks
  exact ⟨_, s, hbuild, hs, hqueue, hstatus, hcounts, rests_of_stateAfter hbuild hs⟩

end Dataflow
