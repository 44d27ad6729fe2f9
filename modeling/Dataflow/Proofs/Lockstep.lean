import Dataflow.Proofs.DepthFirst
import Dataflow.Proofs.RunInvariant
import Mathlib.Order.Bounds.Defs

/-!
# Runs in lockstep

Analyses may agree on what a visit does and still differ in when they stop (`SameCourse`). A run
that does not stop where another one goes on makes the same visits (`Reaches.follow`), and what it
does after them is up to the state that they have led to (`Reaches.runFor_add`). So a run whose
visits are bounded ends (`exists_runFor_of_length_le`), and it ends right after its last visit
(`Reaches.runFor_of_step_eq_ended`). Where no step of the one stops and the other goes on, the runs
are equal (`SameCourse.runFor_eq`).
-/

namespace Dataflow

namespace Graph

variable {g : Graph}

/-- A block with code that the entry does not lead to. -/
def IsDeadCode (g : Graph) (b : BlockId) : Prop :=
  ∃ block, g.block? b = some block ∧ block.special? = none ∧ ¬g.Leads entryBlock b

theorem WellFormed.mem_deadCode_iff (hg : g.WellFormed) {b : BlockId} :
    b ∈ g.deadCode ↔ g.IsDeadCode b := by
  rw [deadCode, List.mem_filter, hg.mem_deadBlocks_iff, IsDeadCode]
  constructor
  · rintro ⟨⟨hlt, hdead⟩, hspecial⟩
    have hb : g.block? b = some g.blocks[b] := Array.getElem?_eq_getElem hlt
    exact ⟨_, hb, by simpa [hb] using hspecial, hdead⟩
  · rintro ⟨block, hb, hspecial, hdead⟩
    exact ⟨⟨(Array.getElem?_eq_some_iff.1 hb).1, hdead⟩, by simp [hb, hspecial]⟩

theorem pairwise_deadCode (g : Graph) : g.deadCode.Pairwise (· < ·) :=
  (List.pairwise_lt_range.filter _).filter _

theorem WellFormed.isLeast_of_deadCode_eq_cons (hg : g.WellFormed) {b : BlockId}
    {rest : List BlockId} (h : g.deadCode = b :: rest) : IsLeast {b | g.IsDeadCode b} b := by
  have hlt := (List.pairwise_cons.1 (h ▸ g.pairwise_deadCode)).1
  refine ⟨hg.mem_deadCode_iff.1 (by simp [h]), fun c hc => ?_⟩
  have hmem : c ∈ b :: rest := h ▸ hg.mem_deadCode_iff.2 hc
  rcases List.mem_cons.1 hmem with rfl | hc
  · exact Nat.le_refl _
  · exact Nat.le_of_lt (hlt c hc)

end Graph

variable {V S : Type}

/-- The state once the next block has been taken from the queue. -/
def RunState.popped (s : RunState V S) : RunState V S :=
  { s with queue := s.queue.tail }

theorem RunState.popped_of_queue_eq_cons {s : RunState V S} {b : BlockId} {rest : List BlockId}
    (h : s.queue = b :: rest) : s.popped = { s with queue := rest } := by
  rw [popped, h, List.tail_cons]

def Progress.state? : Progress V S → Option (RunState V S)
  | running s => some s
  | ended _ => none

variable [DecidableEq S] [AbstractDomain S]

namespace Analysis

variable {a a' : Analysis V S} {g : Graph} {visits : List (BlockVisit V S)} {s : RunState V S}
  {v : BlockVisit V S}

/-! ## Starting -/

/-- The settings do not let the analysis start on this graph, for its dead code. -/
def Refuses (a : Analysis V S) (g : Graph) : Prop :=
  a.config.deadBlocks = .reject ∧ ∃ b, g.IsDeadCode b

theorem Refuses.start (h : a.Refuses g) (hg : g.WellFormed) :
    ∃ b, IsLeast {b | g.IsDeadCode b} b ∧
      a.start g = .ended ⟨.empty, some (.unreachableBlock b)⟩ := by
  obtain ⟨hreject, c, hc⟩ := h
  rw [← hg.mem_deadCode_iff] at hc
  rcases hdead : g.deadCode with _ | ⟨b, rest⟩
  · rw [hdead] at hc
    cases hc
  · exact ⟨b, hg.isLeast_of_deadCode_eq_cons hdead, by rw [Analysis.start, hreject, hdead]⟩

/-- The state before the first visit. -/
def firstState (a : Analysis V S) (g : Graph) : RunState V S :=
  let announced : RunState V S := match g.deadCode with
    | [] => .empty
    | first :: _ => RunState.empty.emit (.skippingDeadCode g.deadCode.length first)
  (announced.emit (.starting g.blocks.size g.nodes.size g.deadCode.length)).receive a.config g
    entryBlock entryBlock (a.transfer.initial g)

theorem start_of_not_refuses (hg : g.WellFormed) (h : ¬a.Refuses g) :
    a.start g = .running (a.firstState g) := by
  unfold start
  split
  · rename_i first rest hpolicy hdead
    exact absurd ⟨hpolicy, first, hg.mem_deadCode_iff.1 (by simp [hdead])⟩ h
  · rfl

theorem eq_firstState (hg : g.WellFormed) (h : a.start g = .running s) :
    ¬a.Refuses g ∧ s = a.firstState g := by
  have hrefuses : ¬a.Refuses g := fun hrefuses => by
    obtain ⟨b, -, hstart⟩ := hrefuses.start hg
    cases hstart.symm.trans h
  rw [start_of_not_refuses hg hrefuses] at h
  cases h
  exact ⟨hrefuses, rfl⟩

theorem Reaches.not_refuses (hg : g.WellFormed) (h : a.Reaches g visits s) : ¬a.Refuses g := by
  induction h with
  | start hstart => exact (eq_firstState hg hstart).1
  | visit _ _ ih => exact ih

/-- At first nothing but the entry waits. -/
theorem queue_firstState (a : Analysis V S) (g : Graph) :
    (a.firstState g).queue = [entryBlock] := by
  unfold firstState
  rcases g.deadCode <;> rcases horder : a.config.order <;>
    simp [RunState.receive, RunState.record, RunState.emit, RunState.empty, Solution.empty,
      RunState.enqueue, RunState.status, RunState.setStatus, horder, Worklist.push,
      Worklist.insertByRank]

/-! ## The course of a run -/

/-- The step ends the run although a block waits. -/
def Stops (a : Analysis V S) (s : RunState V S) : Prop :=
  ∃ b ∈ s.queue.head?, a.cancelled s.popped ∨ a.config.exceeded (s.visitsOf b + 1)

omit [DecidableEq S] [AbstractDomain S] in
theorem stops_iff {b : BlockId} {rest : List BlockId} (hqueue : s.queue = b :: rest) :
    a.Stops s ↔ a.cancelled { s with queue := rest } ∨ a.config.exceeded (s.visitsOf b + 1) := by
  simp [Stops, hqueue, RunState.popped_of_queue_eq_cons hqueue]

theorem not_stops_of_nextVisit? (hv : a.nextVisit? g s = some v) : ¬a.Stops s := by
  obtain ⟨b, rest, hqueue, -, -, -, hcancelled, hexceeded⟩ := nextVisit?_eq_some hv
  simp [stops_iff hqueue, hcancelled, hexceeded]

/-- A block that waits is visited next if the run does not stop. -/
theorem RunInv.exists_nextVisit? (h : a.RunInv g visits s) {b : BlockId}
    (hb : b ∈ s.queue.head?) (hstop : ¬a.Stops s) :
    ∃ v, a.nextVisit? g s = some v ∧ g.block? b = some v.block := by
  obtain ⟨rest, hqueue⟩ := List.head?_eq_some_iff.1 hb
  obtain ⟨block, entry, hblock, hentry⟩ := h.exists_of_mem_queue (b := b) (by simp [hqueue])
  rw [stops_iff hqueue] at hstop
  refine ⟨⟨block, entry, a.transfer.pass g.nodes s.values entry (g.nodesOf block)⟩, ?_, hblock⟩
  simp only [nextVisit?, hqueue, hblock, hentry, Bool.or_eq_true]
  rw [if_neg hstop]

/-- The analyses do the same at every visit. -/
structure SameCourse (a a' : Analysis V S) : Prop where
  transfer : a'.transfer = a.transfer
  order : a'.config.order = a.config.order
  widening : a'.config.widening = a.config.widening
  recordNodeStores : a'.config.recordNodeStores = a.config.recordNodeStores

namespace SameCourse

variable (h : SameCourse a a')

include h

omit [DecidableEq S] [AbstractDomain S] in
theorem config_eq : a'.config = { a.config with
    maxBlockVisits := a'.config.maxBlockVisits
    deadBlocks := a'.config.deadBlocks } := by
  obtain ⟨-, horder, hwidening, hrecord⟩ := h
  cases hconfig : a'.config
  simp_all

theorem visited (g : Graph) (s : RunState V S) (v : BlockVisit V S) :
    s.visited a'.config g v = s.visited a.config g v := by
  rw [h.config_eq]
  rfl

theorem firstState (g : Graph) : a'.firstState g = a.firstState g := by
  unfold Analysis.firstState
  rw [h.config_eq, h.transfer]
  rfl

theorem nextVisit? (hv : a.nextVisit? g s = some v) (hstop : ¬a'.Stops s) :
    a'.nextVisit? g s = some v := by
  obtain ⟨b, rest, hqueue, hblock, hentry, hnodes, -, -⟩ := nextVisit?_eq_some hv
  rw [stops_iff hqueue] at hstop
  simp only [Analysis.nextVisit?, hqueue, hblock, hentry, h.transfer, ← hnodes, Bool.or_eq_true]
  rw [if_neg hstop]

/-- A step at which neither run stops, or both do for the same reason. -/
theorem step_eq (hstop : ∀ b ∈ s.queue.head?, a'.cancelled s.popped = a.cancelled s.popped ∧
    a'.config.exceeded (s.visitsOf b + 1) = a.config.exceeded (s.visitsOf b + 1)) :
    a'.step g s = a.step g s := by
  rcases hqueue : s.queue with _ | ⟨b, rest⟩
  · simp only [step, hqueue]
  · obtain ⟨hcancelled, hexceeded⟩ := hstop b (by simp [hqueue])
    rw [RunState.popped_of_queue_eq_cons hqueue] at hcancelled
    simp only [step, hqueue, hcancelled, visitBlock]
    have hvisits : ∀ queue,
        Solution.visitsOf { s with queue := queue }.toSolution b = s.visitsOf b := fun _ => rfl
    -- What a visit reads of the settings is the same, so it is the same term.
    rw [hvisits, hexceeded, h.transfer, h.config_eq]
    rfl

end SameCourse

/-- A run that does not stop where another one goes on makes the same visits. -/
theorem Reaches.follow (hg : g.WellFormed) (h : a.Reaches g visits s) (hsame : SameCourse a a')
    (hstarts : ¬a'.Refuses g)
    (hstop : ∀ {earlier s' v}, a.Reaches g earlier s' → a.nextVisit? g s' = some v →
      earlier.length < visits.length → ¬a'.Stops s') : a'.Reaches g visits s := by
  -- On the visits; the last of them starts where the shorter run has been followed to.
  induction h with
  | start hstart =>
    rw [(eq_firstState hg hstart).2, ← hsame.firstState]
    exact .start (start_of_not_refuses hg hstarts)
  | @visit visits s v hs hv ih =>
    have ih := ih fun hs' hv' hlt => hstop hs' hv' (by simp only [List.length_append]; omega)
    rw [← hsame.visited]
    exact ih.visit (hsame.nextVisit? hv (hstop hs hv (by simp)))

/-! ## Fuel -/

/-- What the run does after these visits is up to the state that they lead to. -/
theorem Reaches.runFor_add (hg : g.WellFormed) (h : a.Reaches g visits s) :
    ∀ fuel, a.runFor g (visits.length + fuel) = a.runFrom g fuel (.running s) ∧
      a.visitsFor g (visits.length + fuel) = visits ++ a.visitsFrom g fuel (.running s) := by
  induction h with
  | start hstart =>
    intro fuel
    simp [runFor, visitsFor, hstart]
  | @visit visits s v hs hv ih =>
    intro fuel
    have hlength : (visits ++ [v]).length + fuel = visits.length + (fuel + 1) := by
      simp only [List.length_append, List.length_singleton]
      omega
    obtain ⟨hrun, hvisits⟩ := ih (fuel + 1)
    rw [hlength, hrun, hvisits]
    simp [runFrom, visitsFrom, hv, step_of_nextVisit? hg hv]

theorem Reaches.visitsFor_length (hg : g.WellFormed) (h : a.Reaches g visits s) :
    a.visitsFor g visits.length = visits := by
  simpa [visitsFrom] using (h.runFor_add hg 0).2

theorem visitsFrom_isPrefix (a : Analysis V S) (g : Graph) :
    ∀ {fuel fuel' : Nat}, fuel ≤ fuel' → ∀ p, a.visitsFrom g fuel p <+: a.visitsFrom g fuel' p
  | 0, _, _, p => by
    cases p <;> exact List.nil_prefix
  | fuel + 1, fuel' + 1, hle, .running s => by
    simp only [visitsFrom]
    exact (List.prefix_append_right_inj _).2
      (visitsFrom_isPrefix a g (Nat.le_of_succ_le_succ hle) _)
  | fuel + 1, fuel' + 1, _, .ended r => List.nil_prefix

/-- A run that does not end in time has made a visit at every step. -/
theorem Reaches.length_visitsFrom (hg : g.WellFormed) :
    ∀ (fuel : Nat) {visits : List (BlockVisit V S)} {s : RunState V S}, a.Reaches g visits s →
      a.runFrom g fuel (.running s) = none → (a.visitsFrom g fuel (.running s)).length = fuel
  | 0, _, _, _, _ => rfl
  | fuel + 1, visits, s, h, hrun => by
    rw [runFrom] at hrun
    rcases h.step_cases hg with ⟨-, r, hstep⟩ | ⟨v, hv, hstep, hnext⟩ <;> rw [hstep] at hrun
    · rw [runFrom_ended] at hrun
      cases hrun
    · have ih := hnext.length_visitsFrom hg fuel hrun
      simp [visitsFrom, hv, hstep, ih]

theorem length_visitsFor (hg : g.WellFormed) {fuel : Nat} (hrun : a.runFor g fuel = none) :
    (a.visitsFor g fuel).length = fuel := by
  rcases start_cases a g with ⟨b, hstart⟩ | ⟨s, hstart⟩
  · rw [runFor, hstart, runFrom_ended] at hrun
    cases hrun
  · rw [runFor, hstart] at hrun
    rw [visitsFor, hstart]
    exact (Reaches.start hstart).length_visitsFrom hg fuel hrun

/-- A run with a bound on its visits ends: if it did not, it would make a visit at every step. -/
theorem exists_runFor_of_length_le (hg : g.WellFormed) {bound : Nat}
    (hlength : ∀ {visits s}, a.Reaches g visits s → visits.length ≤ bound) {fuel : Nat}
    (hfuel : bound < fuel) : ∃ r, a.runFor g fuel = some r := by
  rcases hrun : a.runFor g fuel with _ | r
  · have hsteps := length_visitsFor hg hrun
    rcases exists_reaches_visitsFor (a := a) hg fuel with ⟨b, -, hrun'⟩ | ⟨s, hs, -⟩
    · cases hrun.symm.trans hrun'
    · have hle := hlength hs
      omega
  · exact ⟨r, rfl⟩

/-! ## States by number -/

/-- The state that the run is in after so many steps, if it has not ended by then. -/
def stateAfter (a : Analysis V S) (g : Graph) : Nat → Option (RunState V S)
  | 0 => (a.start g).state?
  | k + 1 => (a.stateAfter g k).bind fun s => (a.step g s).state?

theorem Reaches.stateAfter_length (hg : g.WellFormed) (h : a.Reaches g visits s) :
    a.stateAfter g visits.length = some s := by
  induction h with
  | start hstart => simp [stateAfter, hstart, Progress.state?]
  | visit hs hv ih => simp [stateAfter, ih, step_of_nextVisit? hg hv, Progress.state?]

/-- Every step that does not end the run makes a visit. -/
theorem exists_reaches_of_stateAfter (hg : g.WellFormed) :
    ∀ {k : Nat} {s : RunState V S}, a.stateAfter g k = some s →
      ∃ visits, visits.length = k ∧ a.Reaches g visits s
  | 0, s, hs => by
    rcases start_cases a g with ⟨b, hstart⟩ | ⟨s', hstart⟩ <;>
      simp [stateAfter, hstart, Progress.state?] at hs
    exact ⟨[], rfl, hs ▸ .start hstart⟩
  | k + 1, s, hs => by
    obtain ⟨s', hs', hstep⟩ := Option.bind_eq_some_iff.1 hs
    obtain ⟨visits, rfl, hreaches⟩ := exists_reaches_of_stateAfter hg hs'
    rcases hreaches.step_cases hg with ⟨-, r, hended⟩ | ⟨v, -, hrunning, hnext⟩
    · rw [hended] at hstep
      cases hstep
    · rw [hrunning] at hstep
      cases hstep
      exact ⟨visits ++ [v], by simp, hnext⟩

/-! ## The last step -/

omit [DecidableEq S] [AbstractDomain S] in
theorem Ends.finished_or_stops {r : Run V S} (h : a.Ends s r) :
    s.queue = [] ∧ r = ⟨s.emit (.fixpointReached s.totalVisits), none⟩ ∨ a.Stops s := by
  cases h with
  | finished hqueue => exact .inl ⟨hqueue, rfl⟩
  | cancelled hqueue hcancelled => exact .inr ((stops_iff hqueue).2 (.inl hcancelled))
  | exceeded hqueue hexceeded => exact .inr ((stops_iff hqueue).2 (.inr hexceeded))

theorem Reaches.exists_step_ended (hg : g.WellFormed) {r : Run V S} :
    ∀ (fuel : Nat) {visits : List (BlockVisit V S)} {s : RunState V S}, a.Reaches g visits s →
      a.runFrom g fuel (.running s) = some r →
      ∃ visits' s', a.Reaches g visits' s' ∧ a.step g s' = .ended r
  | 0, _, _, _, hrun => by cases hrun
  | fuel + 1, visits, s, h, hrun => by
    rw [runFrom] at hrun
    rcases h.step_cases hg with ⟨-, r', hstep⟩ | ⟨v, -, hstep, hnext⟩ <;> rw [hstep] at hrun
    · rw [runFrom_ended, Option.some.injEq] at hrun
      exact ⟨visits, s, h, hrun ▸ hstep⟩
    · exact hnext.exists_step_ended hg fuel hrun

theorem exists_step_of_runFor (hg : g.WellFormed) (hstarts : ¬a.Refuses g) {fuel : Nat}
    {r : Run V S} (hrun : a.runFor g fuel = some r) :
    ∃ visits s, a.Reaches g visits s ∧ a.step g s = .ended r := by
  have hstart := start_of_not_refuses hg hstarts
  rw [runFor, hstart] at hrun
  exact (Reaches.start hstart).exists_step_ended hg fuel hrun

/-- With time for one step more than these visits, the run ends after them. -/
theorem Reaches.runFor_of_step_eq_ended (hg : g.WellFormed) (h : a.Reaches g visits s) {r : Run V S}
    (hstep : a.step g s = .ended r) {fuel : Nat} (hfuel : visits.length < fuel) :
    a.runFor g fuel = some r ∧ a.visitsFor g fuel = visits := by
  obtain ⟨k, rfl⟩ := Nat.exists_eq_add_of_lt hfuel
  -- A step that makes a visit does not end the run, so this one makes none.
  have hlast : a.nextVisit? g s = none := by
    rcases h.step_cases hg with ⟨hlast, -⟩ | ⟨v, -, hrunning, -⟩
    · exact hlast
    · cases hrunning.symm.trans hstep
  obtain ⟨hrun, hvisits⟩ := h.runFor_add hg (k + 1)
  rw [Nat.add_assoc, hrun, hvisits, runFrom, visitsFrom, hstep, runFrom_ended, visitsFrom_ended,
    hlast]
  simp

theorem step_of_queue_eq_nil (hqueue : s.queue = []) :
    a.step g s = .ended ⟨s.emit (.fixpointReached s.totalVisits), none⟩ := by
  rw [step, hqueue]

/-- Runs over the same course are equal where every step of the one stops if that of the other does,
and for the same reason. -/
theorem SameCourse.runFor_eq (hsame : SameCourse a a') (hg : g.WellFormed)
    (hstart : a'.start g = a.start g)
    (hstop : ∀ {visits s}, a.Reaches g visits s → ∀ b ∈ s.queue.head?,
      a'.cancelled s.popped = a.cancelled s.popped ∧
        a'.config.exceeded (s.visitsOf b + 1) = a.config.exceeded (s.visitsOf b + 1))
    (fuel : Nat) : a'.runFor g fuel = a.runFor g fuel := by
  have hfrom : ∀ (fuel : Nat) {visits : List (BlockVisit V S)} {s : RunState V S},
      a.Reaches g visits s →
        a'.runFrom g fuel (.running s) = a.runFrom g fuel (.running s) := by
    intro fuel
    induction fuel with
    | zero => exact fun _ => rfl
    | succ fuel ih =>
      intro visits s h
      rw [runFrom, runFrom, hsame.step_eq (hstop h)]
      rcases h.step_cases hg with ⟨-, r, hstep⟩ | ⟨v, -, hstep, hnext⟩ <;> rw [hstep]
      · rw [runFrom_ended, runFrom_ended]
      · exact ih hnext
  rw [runFor, runFor, hstart]
  rcases start_cases a g with ⟨b, hended⟩ | ⟨s, hrunning⟩
  · rw [hended, runFrom_ended, runFrom_ended]
  · rw [hrunning]
    exact hfrom fuel (.start hrunning)

end Analysis

end Dataflow
