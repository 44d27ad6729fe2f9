import Dataflow.Analysis.Run
import Dataflow.Checker.Counter
import Dataflow.Graph.Builder
import Dataflow.Proofs.Monotone
import Mathlib.Tactic.SplitIfs

/-!
# Laws of counters

Counters are ordered by their counts, and widening goes to the greatest counter.
-/

namespace Dataflow

namespace Counter

variable {a b : Counter}

theorem join_eq (a b : Counter) : join a b = if a.count ≤ b.count then b else a := rfl

theorem widen_eq (a b : Counter) : widen a b = if a.count < b.count then full else a := rfl

theorem below_iff_le : below a b ↔ a.count ≤ b.count := by
  change decide (join a b = b) = true ↔ _
  rw [decide_eq_true_iff, join_eq]
  split_ifs with h
  · simp [h]
  · refine ⟨fun heq => absurd ?_ h, fun hle => absurd hle h⟩
    rw [heq]
    exact UInt64.le_refl _

theorem le_full (a : Counter) : a.count ≤ full.count := by
  rw [UInt64.le_iff_toNat_le]
  have := a.count.toNat_lt
  simp only [full, UInt64.size]
  change a.count.toNat ≤ 18446744073709551615
  omega

theorem lawful : Lawful Counter := by
  refine lawful_of_asserts fun law a b c => ?_
  obtain ⟨a⟩ := a
  obtain ⟨b⟩ := b
  obtain ⟨c⟩ := c
  cases law with
  | commutativity => simp only [Law.Asserts, join_eq]; grind
  | associativity => simp only [Law.Asserts, join_eq]; grind
  | idempotence => simp [Law.Asserts, join_eq]
  | upperBound => simp only [Law.Asserts, below_iff_le, join_eq]; grind
  | subsumptionConsistency => exact decide_eq_true_iff
  | wideningUpperBound =>
    simp only [Law.Asserts, below_iff_le, widen_eq]
    split_ifs with h
    · exact ⟨le_full ⟨a⟩, le_full ⟨b⟩⟩
    · exact ⟨UInt64.le_refl a, UInt64.not_lt.1 h⟩

end Counter

namespace CounterChecker

variable (c : CounterChecker)

theorem next_mono {m n : UInt64} (h : m ≤ n) : c.next m ≤ c.next n := by
  have hadd : ∀ k : UInt64, k ≠ Counter.full.count → (k + 1).toNat = k.toNat + 1 := by
    intro k hk
    have hlt := k.toNat_lt
    have hne : k.toNat ≠ 2 ^ 64 - 1 := fun heq => hk (UInt64.toNat_inj.1 heq)
    rw [UInt64.toNat_add, UInt64.toNat_one, Nat.mod_eq_of_lt (by omega)]
  have hmore : (if m = Counter.full.count then m else m + 1) ≤
      if n = Counter.full.count then n else n + 1 := by
    rw [UInt64.le_iff_toNat_le] at h ⊢
    split_ifs with hm hn hn
    · exact h
    · rw [hadd n hn]
      omega
    · have hne : m.toNat ≠ n.toNat := fun heq => hm ((UInt64.toNat_inj.1 heq).trans hn)
      rw [hadd m hm]
      omega
    · rw [hadd m hm, hadd n hn]
      omega
  unfold next
  cases c.limit with
  | none => exact hmore
  | some limit =>
    change (if limit ≤ _ then limit else _) ≤ if limit ≤ _ then limit else _
    grind

/-- The counter checker reads no values, and counts on from a greater count to a greater one. -/
theorem growsWithState : c.transfer.GrowsWithState := by
  intro n nodes state state' values values' h
  have hnext := Counter.below_iff_le.2 (c.next_mono (Counter.below_iff_le.1 h))
  obtain ⟨id, block, kind⟩ := n
  cases kind with
  | marker label =>
    simp only [transfer, Visitor.visit, visitor]
    split_ifs
    · exact .of_single _ _ h (Counter.lawful.below_refl _)
    · exact .of_split _ _ h hnext h
    · exact .of_single _ _ h hnext
  | _ => exact .of_single _ _ h h

theorem dependsOn (g : Graph) (reads : Node → NodeId → Prop) : c.transfer.DependsOn g reads := by
  intro n _ state values values' _
  obtain ⟨id, block, kind⟩ := n
  cases kind <;> rfl

end CounterChecker

/-- A loop that counts on every round, and a handler for what its body throws. -/
def countingLoop : List Operation :=
  [.addConditional, .pushNode 3 (.marker "split"), .addExceptional, .pushNode 4 (.marker "body"),
    .connect 0 3, .connectBranches 3 4 1, .connect 4 3, .addHandler 4 "E" 2]

def countingLoopGraph : Graph :=
  .ofTables
    #[⟨0, .entry 3⟩, ⟨1, .exit⟩, ⟨2, .exceptionalExit⟩,
      ⟨3, .conditional 0 ⟨4, .eachToEach⟩ ⟨1, .eachToEach⟩⟩,
      ⟨4, .exceptional [1] 3 ⟨[("E", 2)], by decide⟩⟩]
    #[⟨0, 3, .marker "split"⟩, ⟨1, 4, .marker "body"⟩]

theorem build_countingLoop : Graph.build countingLoop = .ok countingLoopGraph := rfl

def countingFromZero (limit : Option UInt64) (config : AnalysisConfig) :
    Analysis (Flat Int64) Counter where
  transfer := CounterChecker.transfer { initial := ⟨0⟩, limit := limit }
  config := config

end Dataflow
