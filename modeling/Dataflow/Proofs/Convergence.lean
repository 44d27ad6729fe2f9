import Dataflow.Proofs.CounterLaws
import Dataflow.Proofs.Lockstep
import Dataflow.Proofs.Recorded
import Mathlib.Algebra.Order.BigOperators.Group.Finset
import Mathlib.Data.Finset.Card

/-!
# Convergence

A run ends with a solution if no block comes to be visited more often than the cap allows
(`convergesWithin_of_countP_le`), as when no recorded state can be updated too often. Once a
strategy has settled on joins or on widenings, every update is a change in a chain of them
(`Reaches.updatesOf_le`), so that a bound on the changes in such chains bounds the visits. Domains
need not be lawful for this, nor transfer functions monotone.
-/

namespace Dataflow

/-! ## Chains -/

section Chains

variable {S : Type} [DecidableEq S] (f : S → S → S)

/-- How many of these states change the first one when they are merged with it in turn. -/
def changes : S → List S → Nat
  | _, [] => 0
  | s, x :: rest => (if f s x = s then 0 else 1) + changes (f s x) rest

/-- No chain of merges has more changes than this. -/
def ChainsWithin (bound : Nat) : Prop :=
  ∀ s xs, changes f s xs ≤ bound

theorem changes_concat (x : S) : ∀ (xs : List S) (s : S),
    changes f s (xs ++ [x]) =
      changes f s xs + if f (xs.foldl f s) x = xs.foldl f s then 0 else 1
  | [], _ => Nat.add_comm _ _
  | y :: rest, s => by
    rw [List.cons_append, changes, changes, changes_concat x rest, List.foldl_cons, Nat.add_assoc]

end Chains

namespace Widening

/-- How many updates a strategy joins before it widens. -/
def delay : Widening → Nat
  | never | always => 0
  | delayed n => n

variable {S : Type} [DecidableEq S] [AbstractDomain S]

/-- What a strategy does with every update after the delay. -/
def settled : Widening → S → S → S
  | never => join
  | always | delayed _ => widen

theorem merge_of_delay_le {w : Widening} {updates : Nat} (h : w.delay ≤ updates)
    (current incoming : S) :
    w.merge current incoming updates = w.settled current incoming := by
  cases w with
  | never => rfl
  | always => rfl
  | delayed n => exact if_pos (decide_eq_true h)

end Widening

/-! ## How often blocks are visited -/

variable {V S : Type} [DecidableEq S] [AbstractDomain S]

omit [DecidableEq S] [AbstractDomain S] in
theorem length_eq_sum_countP {visits : List (BlockVisit V S)} {size : Nat}
    (hblock : ∀ v ∈ visits, v.block.id < size) :
    visits.length = ∑ b ∈ Finset.range size, visits.countP (·.block.id = b) := by
  have hids : ∀ b, Multiset.count b (visits.map (·.block.id) : Multiset BlockId) =
      visits.countP (·.block.id = b) := by
    intro b
    rw [Multiset.coe_count, List.count, List.countP_map]
    rfl
  calc visits.length
    _ = Multiset.card (visits.map (·.block.id) : Multiset BlockId) := by simp
    _ = ∑ b ∈ Finset.range size,
          Multiset.count b (visits.map (·.block.id) : Multiset BlockId) :=
        (Multiset.sum_count_eq_card (by simpa using hblock)).symm
    _ = ∑ b ∈ Finset.range size, visits.countP (·.block.id = b) :=
        Finset.sum_congr rfl fun b _ => hids b

omit [DecidableEq S] [AbstractDomain S] in
theorem length_le_of_countP_le {visits : List (BlockVisit V S)} {size bound : Nat}
    (hblock : ∀ v ∈ visits, v.block.id < size)
    (hcount : ∀ b, visits.countP (·.block.id = b) ≤ bound) : visits.length ≤ size * bound := by
  calc visits.length
    _ = ∑ b ∈ Finset.range size, visits.countP (·.block.id = b) := length_eq_sum_countP hblock
    _ ≤ ∑ _b ∈ Finset.range size, bound := Finset.sum_le_sum fun b _ => hcount b
    _ = size * bound := by simp

namespace Analysis

variable {a : Analysis V S} {g : Graph}

/-- Given time for so many visits of every block, a run ends, and finds a solution with no more
visits of any block. -/
def ConvergesWithin (a : Analysis V S) (g : Graph) (bound : Nat) : Prop :=
  ∀ fuel, g.blocks.size * bound < fuel → ∃ r sol, a.runFor g fuel = some r ∧ r.result = .ok sol ∧
    ∀ b, sol.visitsOf b ≤ bound

/-- Nothing but a failure to converge within so many visits of a block can stop a run. -/
structure Unhindered (a : Analysis V S) (visits : Nat) : Prop where
  skip : a.config.deadBlocks = .skip
  not_cancelled : ∀ s, a.cancelled s = false
  le_cap : ∀ {cap}, a.config.maxBlockVisits = some cap → visits ≤ cap

theorem ConvergesWithin.run {bound : Nat} (h : a.ConvergesWithin g bound)
    (hfuel : g.blocks.size * bound < a.budget g) :
    ∃ r sol, a.run g = some r ∧ r.result = .ok sol ∧ ∀ b, sol.visitsOf b ≤ bound :=
  h _ hfuel

theorem Reaches.length_le_of_countP_le (hg : g.WellFormed) {bound : Nat}
    {visits : List (BlockVisit V S)} {s : RunState V S} (h : a.Reaches g visits s)
    (hcount : ∀ b, visits.countP (·.block.id = b) ≤ bound) :
    visits.length ≤ g.blocks.size * bound :=
  Dataflow.length_le_of_countP_le
    (fun v hv => (Array.getElem?_eq_some_iff.1 ((h.runInv hg).visited_block v hv)).1) hcount

section Bounded

variable (hg : g.WellFormed) {bound : Nat}
  (hcount : ∀ {visits s}, a.Reaches g visits s → ∀ b,
    visits.countP (·.block.id = b) + (if b ∈ s.queue then 1 else 0) ≤ bound)

include hcount

theorem Reaches.not_stops (hfree : a.Unhindered bound) {visits : List (BlockVisit V S)}
    {s : RunState V S} (hs : a.Reaches g visits s) : ¬a.Stops s := by
  rintro ⟨b, hb, hcancelled | hexceeded⟩
  · exact absurd hcancelled (Bool.eq_false_iff.1 (hfree.not_cancelled _))
  · obtain ⟨cap, hcap, hlt⟩ := (Option.any_eq_true _ _).1 hexceeded
    have hle := hfree.le_cap hcap
    have hlt := of_decide_eq_true hlt
    have hcount := hcount hs b
    rw [if_pos (List.mem_of_mem_head? hb), ← hs.accounts.visitsOf] at hcount
    omega

include hg in
theorem convergesWithin_of_countP_le (hfree : a.Unhindered bound) : a.ConvergesWithin g bound := by
  intro fuel hfuel
  have hstarts : ¬a.Refuses g := fun h => by
    cases hfree.skip.symm.trans h.1
  have hlength : ∀ {visits s}, a.Reaches g visits s → visits.length ≤ g.blocks.size * bound :=
    fun hs => hs.length_le_of_countP_le hg fun b => by
      have := hcount hs b
      omega
  obtain ⟨r, hrun⟩ := exists_runFor_of_length_le hg hlength hfuel
  obtain ⟨visits, s, hs, hstep⟩ := exists_step_of_runFor hg hstarts hrun
  rcases (ends_of_step_eq_ended hstep).finished_or_stops with ⟨-, rfl⟩ | hstops
  · refine ⟨_, s.toSolution, hrun, rfl, fun b => ?_⟩
    have hcount := hcount hs b
    rw [hs.accounts.visitsOf]
    omega
  · exact absurd hstops (hs.not_stops hcount hfree)

end Bounded

theorem convergesWithin_of_updatesOf_le (hg : g.WellFormed) {h : Nat}
    (hupdates : ∀ {visits s}, a.Reaches g visits s → ∀ b, s.updatesOf b ≤ h)
    (hfree : a.Unhindered (h + 1)) : a.ConvergesWithin g (h + 1) := by
  refine convergesWithin_of_countP_le hg (fun hs b => ?_) hfree
  have hvisits := hs.visits_le_updates hg b
  have hb := hupdates hs b
  grind

/-- A recorded state is what a chain of the settled operation has come to, with a change for every
update but those of the delay. -/
theorem Reaches.updatesOf_le (hg : g.WellFormed) {w : Widening} (hw : a.config.widening = w)
    {bound : Nat} (hchains : ChainsWithin (S := S) w.settled bound)
    {visits : List (BlockVisit V S)} {s : RunState V S} (hs : a.Reaches g visits s) (b : BlockId) :
    s.updatesOf b ≤ w.delay + bound := by
  subst hw
  let f : S → S → S := a.config.widening.settled
  let P : BlockId → Nat → S → Prop := fun _ k x =>
    ∃ base xs, xs.foldl f base = x ∧ k ≤ a.config.widening.delay + changes f base xs
  have hkept := hs.recorded_induction (P := P) (A := fun _ _ => True) hg trivial
    (fun {b x} _ => ⟨x, [], rfl, Nat.zero_le _⟩)
    (fun {b k x y} hP _ _ hne => by
      obtain ⟨base, xs, rfl, hk⟩ := hP
      rcases Nat.lt_or_ge k a.config.widening.delay with hlt | hge
      · exact ⟨_, [], rfl, Nat.le_add_right_of_le hlt⟩
      · rw [Widening.merge_of_delay_le hge] at hne ⊢
        refine ⟨base, xs ++ [y], List.foldl_concat .., ?_⟩
        rw [changes_concat, if_neg hne]
        omega)
    (fun _ _ _ _ _ _ _ _ => trivial)
  refine hkept.1.updatesOf_le (fun hP => ?_) b
  obtain ⟨base, xs, -, hk⟩ := hP
  exact hk.trans (Nat.add_le_add_left (hchains base xs) _)

/-- Where no chain of joins has more than `h` changes, a run that never widens finds a solution with
at most `h + 1` visits of every block. Where no chain of widenings has more than `w`, so does a run
that widens after `n` updates, with at most `n + w + 1` visits. -/
theorem convergesWithin_of_chainsWithin {operations : List Operation}
    (hg : Graph.build operations = .ok g) :
    (∀ h, a.config.widening = .never → ChainsWithin (S := S) join h → a.Unhindered (h + 1) →
      a.ConvergesWithin g (h + 1)) ∧
    ∀ n w, a.config.widening = .delayed n ∨ a.config.widening = .always ∧ n = 0 →
      ChainsWithin (S := S) widen w → a.Unhindered (n + w + 1) →
        a.ConvergesWithin g (n + w + 1) := by
  have hwf := wellFormed_of_build hg
  refine ⟨fun h hwiden hchains hfree => ?_, fun n w hwiden hchains hfree => ?_⟩
  · refine convergesWithin_of_updatesOf_le hwf (fun hs b => ?_) hfree
    simpa [Widening.delay] using hs.updatesOf_le hwf hwiden hchains b
  · refine convergesWithin_of_updatesOf_le hwf (fun hs b => ?_) hfree
    rcases hwiden with hwiden | ⟨hwiden, rfl⟩
    · exact hs.updatesOf_le hwf hwiden hchains b
    · exact hs.updatesOf_le hwf hwiden hchains b

end Analysis

/-! ## Counters -/

namespace Counter

theorem changes_join_le : ∀ (xs : List Counter) (s : Counter),
    changes join s xs + s.count.toNat ≤ full.count.toNat
  | [], s => (Nat.zero_add _).trans_le (UInt64.le_iff_toNat_le.1 (le_full s))
  | x :: rest, s => by
    have ih := changes_join_le rest (join s x)
    have hgrows : s.count.toNat ≤ (join s x).count.toNat := by
      rw [join_eq, ← UInt64.le_iff_toNat_le]
      split_ifs with h
      · exact h
      · exact UInt64.le_refl _
    rw [changes]
    split_ifs with hsame
    · rw [hsame] at ih ⊢
      omega
    · have hne : s.count.toNat ≠ (join s x).count.toNat := fun heq =>
        hsame (congrArg Counter.mk (UInt64.toNat_inj.1 heq.symm))
      omega

theorem changes_widen_full (xs : List Counter) : changes widen full xs = 0 := by
  induction xs with
  | nil => rfl
  | cons x rest ih =>
    have hsame : widen full x = full := by rw [widen_eq]; split_ifs <;> rfl
    rw [changes, hsame, if_pos rfl, ih]

theorem changes_widen_le : ∀ (xs : List Counter) (s : Counter), changes widen s xs ≤ 1
  | [], _ => Nat.zero_le _
  | x :: rest, s => by
    have ih := changes_widen_le rest s
    rw [changes, widen_eq]
    split_ifs
    · simp [changes_widen_full]
    · simp [changes_widen_full]
    · simpa using ih
    · contradiction

end Counter

/-- Counting up without a limit comes to an end after all numbers, or at the fourth visit if it
widens after two updates. -/
theorem convergesWithin_countingLoop :
    let a := countingFromZero none { maxBlockVisits := none }
    let a' := countingFromZero none { widening := .delayed 2, maxBlockVisits := some 4 }
    ∃ g, Graph.build countingLoop = .ok g ∧ ChainsWithin (S := Counter) join (2 ^ 64 - 1) ∧
      ChainsWithin (S := Counter) widen 1 ∧ a.ConvergesWithin g (2 ^ 64 - 1 + 1) ∧
      a'.ConvergesWithin g (2 + 1 + 1) := by
  intro a a'
  have hjoin : ChainsWithin (S := Counter) join (2 ^ 64 - 1) := fun s xs =>
    (Nat.le_add_right _ _).trans (Counter.changes_join_le xs s)
  have hwiden : ChainsWithin (S := Counter) widen 1 := fun s xs => Counter.changes_widen_le xs s
  obtain ⟨g, hg⟩ : ∃ g, Graph.build countingLoop = .ok g := ⟨_, rfl⟩
  refine ⟨g, hg, hjoin, hwiden, ?_, ?_⟩
  · exact (Analysis.convergesWithin_of_chainsWithin hg).1 _ rfl hjoin ⟨rfl, fun _ => rfl, nofun⟩
  · exact (Analysis.convergesWithin_of_chainsWithin hg).2 2 1 (.inl rfl) hwiden
      ⟨rfl, fun _ => rfl, fun hcap => (Option.some.inj hcap).le⟩

end Dataflow
