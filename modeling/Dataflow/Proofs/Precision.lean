import Dataflow.Proofs.LeastFixpoint
import Dataflow.Proofs.LivePart

/-!
# What widening loses

However a run widens, what it has recorded when nothing waits any more is a post-fixpoint, which a
run of the same monotone transfer function without widening never leaves. Which blocks have a state
is up to the graph alone (`Reaches.isSome_before_iff`). So widening makes states greater, and
changes nothing else (`below_widened`).
-/

namespace Dataflow

variable {V S : Type} [DecidableEq S] [AbstractDomain S]

/-- A run that widens as it may, and a run of the same monotone transfer function that does not, in
whatever orders: if both find a solution, they find states for the same blocks, and those of the run
without widening are below the others, which are a post-fixpoint all the same. -/
theorem below_widened [Inspect S] (hS : Lawful S) {operations : List Operation} {g : Graph}
    (hg : Graph.build operations = .ok g) {a a' : Analysis V S}
    (htransfer : a'.transfer = a.transfer) (hreads : a.transfer.ReadsOwnBlock g)
    (hmono : a.transfer.MonotoneOnEdges g) (hwiden : a.config.widening = .never)
    {fuel fuel' : Nat} {r r' : Run V S} {sol sol' : Solution V S}
    (hr : a.runFor g fuel = some r) (hsol : r.result = .ok sol)
    (hr' : a'.runFor g fuel' = some r') (hsol' : r'.result = .ok sol') :
    (∀ b, (sol.stateBefore? b).isSome ↔ (sol'.stateBefore? b).isSome) ∧
      (∀ b x x', sol.stateBefore? b = some x → sol'.stateBefore? b = some x' → below x x') ∧
      a.transfer.IsPostFixpoint g sol'.stateBefore? := by
  have hwf := wellFormed_of_build hg
  obtain ⟨s, hs, hqueue, rfl⟩ := Analysis.reaches_of_result_eq_ok hwf hr hsol
  obtain ⟨s', hs', hqueue', rfl⟩ := Analysis.reaches_of_result_eq_ok hwf hr' hsol'
  have htable : a.transfer.IsPostFixpoint g s'.stateBefore? :=
    htransfer ▸ hs'.isPostFixpoint hwf (htransfer ▸ hreads) hS hqueue'
  refine ⟨fun b => ?_, fun b x x' hx hx' => ?_, htable⟩
  · exact (hs.isSome_before_iff hwf hqueue b).trans (hs'.isSome_before_iff hwf hqueue' b).symm
  · obtain ⟨y, hy, hbelow⟩ := hs.absorbed hwf hreads hS hmono htable hwiden hx
    obtain rfl : y = x' := Option.some.inj (hy.symm.trans hx')
    exact hbelow

/-- Counting up to three, a run that widens after one update loses the limit, and with it the count
of the loop. -/
theorem below_widened_countingLoop :
    let a := countingFromZero (some 3) {}
    let a' := countingFromZero (some 3) { widening := .delayed 1, order := .fifo }
    ∃ g r r' sol sol', Graph.build countingLoop = .ok g ∧
      a.runFor g 30 = some r ∧ r.result = .ok sol ∧
      a'.runFor g 30 = some r' ∧ r'.result = .ok sol' ∧
      a.transfer.ReadsOwnBlock g ∧ a.transfer.MonotoneOnEdges g ∧
      (sol.stateBefore? 3 = some ⟨3⟩ ∧ sol'.stateBefore? 3 = some Counter.full) ∧
      (∀ b, (sol.stateBefore? b).isSome ↔ (sol'.stateBefore? b).isSome) ∧
      (∀ b x x', sol.stateBefore? b = some x → sol'.stateBefore? b = some x' → below x x') ∧
      a.transfer.IsPostFixpoint g sol'.stateBefore? := by
  intro a a'
  have hsolved : ((a.solve? countingLoop 30).any fun (_, sol) => sol.stateBefore? 3 = some ⟨3⟩) ∧
      (a'.solve? countingLoop 30).any fun (_, sol) => sol.stateBefore? 3 = some Counter.full := by
    decide +kernel
  obtain ⟨⟨g, sol⟩, hsolve, hstate⟩ := (Option.any_eq_true _ _).1 hsolved.1
  obtain ⟨⟨g', sol'⟩, hsolve', hstate'⟩ := (Option.any_eq_true _ _).1 hsolved.2
  obtain ⟨hg, r, hr, hsol⟩ := Analysis.solve?_eq_some hsolve
  obtain ⟨hg', r', hr', hsol'⟩ := Analysis.solve?_eq_some hsolve'
  obtain rfl : g' = g := Except.ok.inj (hg'.symm.trans hg)
  have hreads : a.transfer.ReadsOwnBlock g' := CounterChecker.dependsOn _ _ _
  have hmono : a.transfer.MonotoneOnEdges g' :=
    (CounterChecker.growsWithState _).monotoneOnEdges Counter.lawful g'
  have hwiden : a.config.widening = .never := rfl
  have htransfer : a'.transfer = a.transfer := rfl
  exact ⟨g', r, r', sol, sol', hg, hr, hsol, hr', hsol', hreads, hmono,
    ⟨of_decide_eq_true hstate, of_decide_eq_true hstate'⟩,
    below_widened Counter.lawful hg htransfer hreads hmono hwiden hr hsol hr' hsol'⟩

end Dataflow
