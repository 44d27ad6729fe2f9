import Dataflow.Proofs.Monotone
import Dataflow.Proofs.PostFixpoint
import Dataflow.Proofs.Recorded

/-!
# Least fixpoints

If nothing that a transfer function reads comes from another block, what a block sends is a function
of the state at its entry (`sent_eq_sentFrom`). If that function is monotone and nothing is widened,
no recorded state ever leaves any post-fixpoint (`Reaches.absorbed`), and a run that finds a
solution finds the least of them, whatever its order.
-/

namespace Dataflow

variable {V S : Type} [DecidableEq S] [AbstractDomain S]

/-- The initial state and whatever a block sends from its state in the table are in the table. -/
structure Transfer.IsPostFixpoint (t : Transfer V S) (g : Graph) (table : BlockId → Option S) :
    Prop where
  initial : Absorbs table entryBlock (t.initial g)
  sent : ∀ {b block}, g.block? b = some block → ∀ {entry}, table b = some entry →
    ∀ {e target}, (e, target) ∈ block.shape.edges →
      ∀ {state}, t.sentFrom g block entry e = some state → Absorbs table target state

theorem Absorbs.antisymm [Inspect S] (hS : Lawful S) {table table' : BlockId → Option S}
    (hle : ∀ b x, table b = some x → Absorbs table' b x)
    (hge : ∀ b x, table' b = some x → Absorbs table b x) (b : BlockId) : table b = table' b := by
  rcases hb : table b with _ | x
  · rcases hb' : table' b with _ | x'
    · rfl
    · obtain ⟨y, hy, -⟩ := hge b x' hb'
      rw [hb] at hy
      cases hy
  · obtain ⟨x', hb', hbelow⟩ := hle b x hb
    obtain ⟨y, hy, hbelow'⟩ := hge b x' hb'
    obtain rfl : x = y := Option.some.inj (hb.symm.trans hy)
    rw [hb', hS.below_antisymm hbelow hbelow']

namespace Analysis

variable {a : Analysis V S} {g : Graph} {visits : List (BlockVisit V S)} {s : RunState V S}
  (hg : g.WellFormed) (hreads : a.transfer.ReadsOwnBlock g)

include hg hreads

theorem RunInv.outcomes_eq (h : a.RunInv g visits s) {v : BlockVisit V S} (hv : v ∈ visits) :
    v.nodes.map NodeVisit.outcome =
      (a.transfer.pass g.nodes .empty v.entry (g.nodesOf v.block)).map NodeVisit.outcome := by
  obtain ⟨values, hnodes⟩ := h.visited_nodes v hv
  rw [hnodes]
  exact outcomes_pass_of_readsOwnBlock _ hg hreads (h.visited_block v hv) _ _ _

theorem RunInv.sent_eq_sentFrom (h : a.RunInv g visits s) {v : BlockVisit V S} (hv : v ∈ visits)
    (e : Edge) : v.sent e = a.transfer.sentFrom g v.block v.entry e :=
  Pass.sent_congr (h.outcomes_eq hg hreads hv) _ _ e

/-- Two last visits of a block that begin with the same state come to the same. -/
theorem map_lastVisit?_congr {a' : Analysis V S} (htransfer : a'.transfer = a.transfer)
    {visits' : List (BlockVisit V S)} {s' : RunState V S} (h : a.RunInv g visits s)
    (h' : a'.RunInv g visits' s') {b : BlockId}
    (hentry : (lastVisit? visits b).map (·.entry) = (lastVisit? visits' b).map (·.entry))
    {α : Type} (f : BlockVisit V S → α)
    (hf : ∀ {v v' : BlockVisit V S}, v.block = v'.block → v.entry = v'.entry →
      v.nodes.map NodeVisit.outcome = v'.nodes.map NodeVisit.outcome → f v = f v') :
    (lastVisit? visits b).map f = (lastVisit? visits' b).map f := by
  rcases hv : lastVisit? visits b with _ | v <;> rcases hv' : lastVisit? visits' b with _ | v' <;>
    rw [hv, hv'] at hentry
  · cases hentry
  · cases hentry
  · obtain ⟨hmem, hvb⟩ := mem_of_lastVisit?_eq_some hv
    obtain ⟨hmem', hvb'⟩ := mem_of_lastVisit?_eq_some hv'
    have hblock : v.block = v'.block := Option.some.inj <|
      (hvb ▸ h.visited_block v hmem).symm.trans (hvb' ▸ h'.visited_block v' hmem')
    have heq : v.entry = v'.entry := Option.some.inj hentry
    have houtcomes := h.outcomes_eq hg hreads hmem
    rw [hblock, heq, ← htransfer, ← h'.outcomes_eq hg (htransfer ▸ hreads) hmem'] at houtcomes
    exact congrArg some (hf hblock heq houtcomes)

section Lawful

variable [Inspect S] (hS : Lawful S)

include hS

section Table

variable (hmono : a.transfer.MonotoneOnEdges g) {table : BlockId → Option S}
  (htable : a.transfer.IsPostFixpoint g table)

include hmono htable

theorem RunInv.absorbs_sent (h : a.RunInv g visits s) {v : BlockVisit V S} (hv : v ∈ visits)
    (hentry : Absorbs table v.block.id v.entry) {e : Edge} {target : BlockId}
    (he : (e, target) ∈ v.block.shape.edges) {state : S} (hsent : v.sent e = some state) :
    Absorbs table target state := by
  obtain ⟨y, hy, hbelow⟩ := hentry
  have hblock := h.visited_block v hv
  rw [h.sent_eq_sentFrom hg hreads hv] at hsent
  obtain ⟨state', hsent'⟩ : ∃ state', a.transfer.sentFrom g v.block y e = some state' := by
    rw [← Option.isSome_iff_exists, a.transfer.isSome_sentFrom g _ y v.entry, hsent]
    rfl
  obtain ⟨z, hz, hbelow'⟩ := htable.sent hblock hy he hsent'
  exact ⟨z, hz, hS.below_trans (hmono hblock he hbelow hsent hsent') hbelow'⟩

/-- A post-fixpoint absorbs whatever a run without widening records. -/
theorem Reaches.absorbed (hwiden : a.config.widening = .never) (h : a.Reaches g visits s)
    {b : BlockId} {x : S} (hb : s.before.get? b = some x) : Absorbs table b x := by
  refine (h.recorded_induction hg (P := fun b _ x => Absorbs table b x) (A := Absorbs table)
    htable.initial id ?_ ?_).1.recorded hb
  · intro b k x y hx hy _ _
    rw [hwiden, Widening.merge_never]
    exact hx.join hS hy
  · intro visits s v k hs hv hentry e target he state hsent
    have hinv := (hs.visit hv).runInv hg
    exact hinv.absorbs_sent hg hreads hS hmono htable (by simp) hentry he hsent

end Table

/-- The states that are recorded when nothing waits are a post-fixpoint. -/
theorem Reaches.isPostFixpoint (h : a.Reaches g visits s) (hqueue : s.queue = []) :
    a.transfer.IsPostFixpoint g s.stateBefore? where
  initial := h.absorbs_of_arrives hS (.inl ⟨rfl, rfl⟩)
  sent := by
    intro b block hb entry hentry e target he state hstate
    have hinv := h.runInv hg
    rcases hinv.settled hentry with hmem | ⟨v, hv, rfl⟩
    · rw [hqueue] at hmem
      cases hmem
    · obtain ⟨hmem, hvb⟩ := mem_of_lastVisit?_eq_some hv
      obtain rfl : v.block = block :=
        Option.some.inj ((hvb ▸ hinv.visited_block v hmem).symm.trans hb)
      rw [← hinv.sent_eq_sentFrom hg hreads hmem] at hstate
      exact h.absorbs_of_arrives hS (.inr ⟨v, hmem, e, he, hstate⟩)

end Lawful

end Analysis

section Solution

variable [Inspect S]

/-- The states of a solution are a post-fixpoint, and any other has greater states throughout. -/
theorem isLeast_of_result_eq_ok (hS : Lawful S) {g : Graph} (hg : g.WellFormed) {a : Analysis V S}
    (hreads : a.transfer.ReadsOwnBlock g) (hmono : a.transfer.MonotoneOnEdges g)
    (hwiden : a.config.widening = .never) {fuel : Nat} {r : Run V S} {sol : Solution V S}
    (hr : a.runFor g fuel = some r) (hsol : r.result = .ok sol) :
    a.transfer.IsPostFixpoint g sol.stateBefore? ∧
      ∀ table, a.transfer.IsPostFixpoint g table →
        ∀ b x, sol.stateBefore? b = some x → Absorbs table b x := by
  obtain ⟨s, hs, hqueue, rfl⟩ := Analysis.reaches_of_result_eq_ok hg hr hsol
  exact ⟨hs.isPostFixpoint hg hreads hS hqueue,
    fun table htable _ _ hb => hs.absorbed hg hreads hS hmono htable hwiden hb⟩

/-- Runs of a monotone transfer function without widening that find a solution find the same one,
which is the least post-fixpoint, in whatever order they visit the blocks. -/
theorem leastFixpoint_of_result_eq_ok (hS : Lawful S) {operations : List Operation} {g : Graph}
    (hg : Graph.build operations = .ok g) {a a' : Analysis V S}
    (htransfer : a'.transfer = a.transfer) (hreads : a.transfer.ReadsOwnBlock g)
    (hmono : a.transfer.MonotoneOnEdges g) (hwiden : a.config.widening = .never)
    (hwiden' : a'.config.widening = .never) {fuel fuel' : Nat} {r r' : Run V S}
    {sol sol' : Solution V S} (hr : a.runFor g fuel = some r) (hsol : r.result = .ok sol)
    (hr' : a'.runFor g fuel' = some r') (hsol' : r'.result = .ok sol') :
    (∀ b, sol.stateBefore? b = sol'.stateBefore? b) ∧ (∀ b, sol.outflow? b = sol'.outflow? b) ∧
      (∀ n, sol.value? n = sol'.value? n) ∧
      a.transfer.IsPostFixpoint g sol.stateBefore? ∧
      ∀ table, a.transfer.IsPostFixpoint g table →
        ∀ b x, sol.stateBefore? b = some x → Absorbs table b x := by
  have hwf := wellFormed_of_build hg
  have hleast := isLeast_of_result_eq_ok hS hwf hreads hmono hwiden hr hsol
  have hleast' := isLeast_of_result_eq_ok hS hwf (htransfer ▸ hreads) (htransfer ▸ hmono) hwiden'
    hr' hsol'
  rw [htransfer] at hleast'
  have hbefore : ∀ b, sol.stateBefore? b = sol'.stateBefore? b :=
    Absorbs.antisymm hS (hleast.2 _ hleast'.1) (hleast'.2 _ hleast.1)
  obtain ⟨s, hs, hqueue, rfl⟩ := Analysis.reaches_of_result_eq_ok hwf hr hsol
  obtain ⟨s', hs', hqueue', rfl⟩ := Analysis.reaches_of_result_eq_ok hwf hr' hsol'
  have hentry : ∀ b, (lastVisit? (a.visitsFor g fuel) b).map (·.entry) =
      (lastVisit? (a'.visitsFor g fuel') b).map (·.entry) := by
    intro b
    rw [← (hs.runInv hwf).stateBefore?_eq hqueue b,
      ← (hs'.runInv hwf).stateBefore?_eq hqueue' b, hbefore b]
  have hlast := fun b {α} => Analysis.map_lastVisit?_congr hwf hreads htransfer (hs.runInv hwf)
    (hs'.runInv hwf) (hentry b) (α := α)
  refine ⟨hbefore, fun b => ?_, fun n => ?_, hleast⟩
  · rw [Solution.outflow?, Solution.outflow?, hs.accounts.after, hs'.accounts.after]
    refine hlast b _ fun {v v'} hblock hentry houtcomes => ?_
    rw [BlockVisit.outflow, BlockVisit.outflow, hblock, hentry, Pass.outflow_congr houtcomes]
  · rw [Solution.value?, Solution.value?, hs.get?_values hwf, hs'.get?_values hwf]
    rcases g.node? n with _ | node
    · rfl
    · have hvalue := hlast node.block (·.value? n) fun _ _ houtcomes =>
        Pass.value?_congr houtcomes n
      simpa only [Option.bind_some, Option.bind_map, Function.id_comp] using
        congrArg (Option.bind · id) hvalue

end Solution

/-- Counting up to three comes to the same in either order. -/
theorem leastFixpoint_countingLoop :
    let a := countingFromZero (some 3) {}
    let a' := countingFromZero (some 3) { order := .fifo }
    ∃ g r r' sol sol', Graph.build countingLoop = .ok g ∧
      a.runFor g 30 = some r ∧ r.result = .ok sol ∧
      a'.runFor g 30 = some r' ∧ r'.result = .ok sol' ∧
      a.transfer.ReadsOwnBlock g ∧ a.transfer.MonotoneOnEdges g ∧
      (∀ b, sol.stateBefore? b = sol'.stateBefore? b) ∧
      (∀ b, sol.outflow? b = sol'.outflow? b) ∧ (∀ n, sol.value? n = sol'.value? n) ∧
      a.transfer.IsPostFixpoint g sol.stateBefore? ∧
      ∀ table, a.transfer.IsPostFixpoint g table →
        ∀ b x, sol.stateBefore? b = some x → Absorbs table b x := by
  intro a a'
  have hsolved : (a.solve? countingLoop 30).isSome ∧ (a'.solve? countingLoop 30).isSome := by
    decide +kernel
  obtain ⟨⟨g, sol⟩, hsolve⟩ := Option.isSome_iff_exists.1 hsolved.1
  obtain ⟨⟨g', sol'⟩, hsolve'⟩ := Option.isSome_iff_exists.1 hsolved.2
  obtain ⟨hg, r, hr, hsol⟩ := Analysis.solve?_eq_some hsolve
  obtain ⟨hg', r', hr', hsol'⟩ := Analysis.solve?_eq_some hsolve'
  obtain rfl : g' = g := Except.ok.inj (hg'.symm.trans hg)
  have hreads : a.transfer.ReadsOwnBlock g' := CounterChecker.dependsOn _ _ _
  have hmono : a.transfer.MonotoneOnEdges g' :=
    (CounterChecker.growsWithState _).monotoneOnEdges Counter.lawful g'
  have htransfer : a'.transfer = a.transfer := rfl
  have hwiden : a.config.widening = .never := rfl
  have hwiden' : a'.config.widening = .never := rfl
  exact ⟨g', r, r', sol, sol', hg, hr, hsol, hr', hsol', hreads, hmono,
    leastFixpoint_of_result_eq_ok Counter.lawful hg htransfer hreads hmono hwiden hwiden' hr hsol
      hr' hsol'⟩

end Dataflow
