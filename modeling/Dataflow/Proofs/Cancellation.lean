import Dataflow.Proofs.CounterLaws
import Dataflow.Proofs.Lockstep

/-!
# Cancellation

A run looks whether it has been cancelled whenever it takes a block from the queue, and nowhere
else. So up to then it is the run that nobody cancels, and the visits that it has made are complete.
The result of a run that nobody cancels is lost only if a block still waits when cancellation is
raised (`cancellation_of_build`).
-/

namespace Dataflow

variable {V S : Type} [DecidableEq S] [AbstractDomain S]

namespace Analysis

/-- The same analysis, if nobody cancels it. -/
def uncancelled (a : Analysis V S) : Analysis V S :=
  { a with cancelled := fun _ => false }

/-- Cancellation is raised by the time when the run has made so many visits and gone into this
state, and not so early that the run would have seen it before. -/
structure RaisedAfter (a : Analysis V S) (g : Graph) (k : Nat) (s : RunState V S) : Prop where
  state : a.uncancelled.stateAfter g k = some s
  not_before : ∀ j < k, ∀ s' ∈ a.uncancelled.stateAfter g j, a.cancelled s'.popped = false
  raised : a.cancelled s.popped

variable {a : Analysis V S} {g : Graph} {k : Nat} {s : RunState V S}

omit [DecidableEq S] [AbstractDomain S] in
theorem sameCourse_uncancelled (a : Analysis V S) : SameCourse a.uncancelled a :=
  ⟨rfl, rfl, rfl, rfl⟩

/-- A run that sees no cancellation is the one that nobody cancels. -/
theorem runFor_eq_uncancelled (hg : g.WellFormed)
    (hnever : ∀ k, ∀ s ∈ a.uncancelled.stateAfter g k, a.cancelled s.popped = false)
    (fuel : Nat) : a.runFor g fuel = a.uncancelled.runFor g fuel :=
  a.sameCourse_uncancelled.runFor_eq hg rfl
    (fun hs _ _ => ⟨hnever _ _ (hs.stateAfter_length hg), rfl⟩) fuel

theorem RaisedAfter.exists_reaches (hg : g.WellFormed) (h : a.RaisedAfter g k s) :
    ∃ visits, visits.length = k ∧ a.uncancelled.Reaches g visits s ∧ a.Reaches g visits s := by
  obtain ⟨visits, rfl, hs⟩ := exists_reaches_of_stateAfter hg h.state
  have hstarts : ¬a.uncancelled.Refuses g := hs.not_refuses hg
  refine ⟨visits, rfl, hs, hs.follow hg a.sameCourse_uncancelled hstarts ?_⟩
  rintro earlier s' v hs' hv hlt ⟨b, hb, hcancelled | hexceeded⟩
  · have hunseen := h.not_before _ hlt s' (hs'.stateAfter_length hg)
    rw [hunseen] at hcancelled
    cases hcancelled
  · exact not_stops_of_nextVisit? hv ⟨b, hb, .inr hexceeded⟩

theorem step_of_cancelled (hraised : a.cancelled s.popped) {b : BlockId} {rest : List BlockId}
    (hqueue : s.queue = b :: rest) :
    a.step g s = .ended ⟨s.popped.emit (.cancelled b), some .cancelled⟩ := by
  rw [RunState.popped_of_queue_eq_cons hqueue] at hraised ⊢
  simp [step, hqueue, hraised]

/-- A run that is cancelled after so many visits has made these and makes no other. It fails if a
block waits, and otherwise it has ended already. -/
theorem RaisedAfter.outcome (hg : g.WellFormed) (h : a.RaisedAfter g k s) {fuel : Nat}
    (hfuel : k < fuel) :
    a.visitsFor g fuel = a.uncancelled.visitsFor g k ∧
      ∃ r, a.runFor g fuel = some r ∧ r.state.toSolution = s.toSolution ∧
        r.state.log = ((a.uncancelled.visitsFor g k).flatMap (·.nodes)).toArray ∧
        (s.queue ≠ [] → r.result = .error .cancelled) ∧
        (s.queue = [] → r.result = .ok s.toSolution ∧ a.uncancelled.runFor g fuel = some r) := by
  obtain ⟨visits, rfl, huncancelled, hs⟩ := h.exists_reaches hg
  rw [huncancelled.visitsFor_length hg]
  have hlog := hs.accounts.log
  rcases hqueue : s.queue with _ | ⟨b, rest⟩
  · obtain ⟨hrun, hvisits⟩ := hs.runFor_of_step_eq_ended hg (step_of_queue_eq_nil hqueue) hfuel
    obtain ⟨hrun', -⟩ :=
      huncancelled.runFor_of_step_eq_ended hg (step_of_queue_eq_nil hqueue) hfuel
    exact ⟨hvisits, _, hrun, rfl, hlog, fun hne => absurd rfl hne, fun _ => ⟨rfl, hrun'⟩⟩
  · obtain ⟨hrun, hvisits⟩ :=
      hs.runFor_of_step_eq_ended hg (step_of_cancelled h.raised hqueue) hfuel
    exact ⟨hvisits, _, hrun, rfl, hlog, fun _ => rfl, nofun⟩

theorem raisedAfter_zero (hg : g.WellFormed) (hstarts : ¬a.Refuses g)
    (hraised : ∀ s, a.cancelled s) : a.RaisedAfter g 0 (a.uncancelled.firstState g) where
  state := by
    have hstart : a.uncancelled.start g = .running _ := start_of_not_refuses hg hstarts
    rw [stateAfter, hstart, Progress.state?]
  not_before := nofun
  raised := hraised _

end Analysis

/-- Whenever cancellation is raised, the run completes the visit that it is in and makes no other
one. What it has found is then what the uncancelled run has found by that time. If a block waits, be
it one that has been visited too often, the run fails as cancelled, and otherwise it ends as the
uncancelled run does. Where cancellation has been raised before the run, no node is visited. -/
theorem cancellation_of_build {operations : List Operation} {g : Graph}
    (hbuild : Graph.build operations = .ok g) (a : Analysis V S) :
    ((∀ k, ∀ s ∈ a.uncancelled.stateAfter g k, a.cancelled s.popped = false) →
      ∀ fuel, a.runFor g fuel = a.uncancelled.runFor g fuel) ∧
    (∀ k s, a.RaisedAfter g k s → ∀ fuel, k < fuel →
      a.visitsFor g fuel = a.uncancelled.visitsFor g k ∧
      ∃ r, a.runFor g fuel = some r ∧ r.state.toSolution = s.toSolution ∧
        r.state.log = ((a.uncancelled.visitsFor g k).flatMap (·.nodes)).toArray ∧
        (s.queue ≠ [] → r.result = .error .cancelled) ∧
        (s.queue = [] → r.result = .ok s.toSolution ∧ a.uncancelled.runFor g fuel = some r)) ∧
    ((∀ s, a.cancelled s) → ∀ fuel, 0 < fuel → a.visitsFor g fuel = [] ∧
      ∃ r, a.runFor g fuel = some r ∧ r.state.log = #[] ∧
        (a.Refuses g → ∃ b, IsLeast {b | g.IsDeadCode b} b ∧
          r.result = .error (.unreachableBlock b)) ∧
        (¬a.Refuses g → r.result = .error .cancelled)) := by
  have hg := wellFormed_of_build hbuild
  refine ⟨Analysis.runFor_eq_uncancelled hg, fun k s h fuel => h.outcome hg,
    fun hraised fuel hfuel => ?_⟩
  by_cases hrefuses : a.Refuses g
  · obtain ⟨b, hleast, hstart⟩ := hrefuses.start hg
    rw [Analysis.visitsFor, Analysis.runFor, hstart, Analysis.visitsFrom_ended,
      Analysis.runFrom_ended]
    exact ⟨rfl, _, rfl, rfl, fun _ => ⟨b, hleast, rfl⟩, fun h => absurd hrefuses h⟩
  · obtain ⟨hvisits, r, hr, -, hlog, hcancelled, -⟩ :=
      (Analysis.raisedAfter_zero hg hrefuses hraised).outcome hg hfuel
    refine ⟨hvisits, r, hr, hlog, fun h => absurd h hrefuses, fun _ => hcancelled ?_⟩
    rw [Analysis.queue_firstState]
    exact List.cons_ne_nil _ _

/-- Cancelled by the second marker, a loop that must be visited no more than once is left when it
waits again. Uncancelled, it is visited too often. -/
theorem cancellation_countingLoop :
    let a : Analysis (Flat Int64) Counter :=
      { countingFromZero none { maxBlockVisits := some 1 } with
        cancelled := CounterChecker.cancelled { initial := ⟨0⟩, cancelAfter := some 2 } }
    ∃ g s r r', Graph.build countingLoop = .ok g ∧ a.RaisedAfter g 4 s ∧
      s.queue.head? = some 3 ∧ a.visitsFor g 10 = a.uncancelled.visitsFor g 4 ∧
      a.runFor g 10 = some r ∧ r.result = .error .cancelled ∧
      a.uncancelled.runFor g 10 = some r' ∧ r'.failure = some (.nonConvergence 3 2) := by
  intro a
  have hstate : (a.uncancelled.stateAfter countingLoopGraph 4).any fun s =>
      s.queue.head? = some 3 ∧ a.cancelled s.popped := by decide +kernel
  have hbefore : ∀ j < 4, (a.uncancelled.stateAfter countingLoopGraph j).all fun s =>
      !a.cancelled s.popped := by decide +kernel
  have hended : (a.uncancelled.runFor countingLoopGraph 10).any fun r =>
      r.failure = some (.nonConvergence 3 2) := by decide +kernel
  obtain ⟨s, hs, hqueue⟩ := (Option.any_eq_true _ _).1 hstate
  obtain ⟨hhead, hraised⟩ := of_decide_eq_true hqueue
  obtain ⟨r', hr', hfailure⟩ := (Option.any_eq_true _ _).1 hended
  have hafter : a.RaisedAfter countingLoopGraph 4 s := by
    refine ⟨hs, fun j hj s' hs' => ?_, hraised⟩
    have hall := (Option.all_eq_true _ _).1 (hbefore j hj) s' hs'
    simpa using hall
  obtain ⟨hvisits, r, hr, -, -, hcancelled, -⟩ :=
    (cancellation_of_build build_countingLoop a).2.1 4 s hafter 10 (by decide)
  have hwaits : s.queue ≠ [] := fun hnil => by simp [hnil] at hhead
  exact ⟨_, s, r, r', build_countingLoop, hafter, hhead, hvisits, hr, hcancelled hwaits, hr',
    of_decide_eq_true hfailure⟩

end Dataflow
