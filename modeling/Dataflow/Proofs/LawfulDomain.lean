import Dataflow.Domain.Law
import Dataflow.Domain.Widening
import Mathlib.Logic.Basic

/-!
# Lawful domains

The check of three states goes through the laws in their order and finds the first that fails
(`Law.firstViolation?_eq_find?`), so it finds nothing if all hold. A domain is lawful if the check
passes on every triple of its states. Its order test is then the order of the join, a partial order
in which the join is a least upper bound (`join_below`), and what a strategy merges is above both
states (`below_merge_left`, `below_merge_right`).
-/

namespace Dataflow

variable {S : Type} [DecidableEq S] [AbstractDomain S]

namespace Law

/-- What the law says of three states. -/
def Asserts (a b c : S) : Law → Prop
  | commutativity => join a b = join b a
  | associativity => join (join a b) c = join a (join b c)
  | idempotence => join a a = a
  | upperBound => below a (join a b) ∧ below b (join a b)
  | subsumptionConsistency => below a b ↔ join a b = b
  | wideningUpperBound => below a (widen a b) ∧ below b (widen a b)

instance (a b c : S) : DecidablePred fun law : Law => law.Asserts a b c
  | commutativity => decEq (join a b) (join b a)
  | associativity => decEq (join (join a b) c) (join a (join b c))
  | idempotence => decEq (join a a) a
  | upperBound => inferInstanceAs (Decidable (below a (join a b) ∧ below b (join a b)))
  | subsumptionConsistency => inferInstanceAs (Decidable (below a b ↔ join a b = b))
  | wideningUpperBound => inferInstanceAs (Decidable (below a (widen a b) ∧ below b (widen a b)))

theorem mem_all (law : Law) : law ∈ all := by
  cases law <;> simp [all]

variable [Inspect S]

/-- The laws are checked in the order of `all`: the check finds the first of them that fails. -/
theorem firstViolation?_eq_find? (a b c : S) :
    firstViolation? a b c =
      (all.find? fun law => ¬law.Asserts a b c).map fun law => ⟨law, law.detail a b c⟩ := by
  have hnext : ∀ (law : Law) (rest : List Law),
      ((law :: rest).find? fun l => ¬l.Asserts a b c) =
        if ¬law.Asserts a b c then some law else rest.find? fun l => ¬l.Asserts a b c := by
    intro law rest
    rw [List.find?_cons]
    by_cases h : law.Asserts a b c <;> simp [h]
  have hbound : ∀ p q : Bool, (!p || !q) = true ↔ ¬(p = true ∧ q = true) := by decide
  have hconsistent : (below a b != decide (join a b = b)) = true ↔ ¬(below a b ↔ join a b = b) := by
    rw [bne_iff_ne, ne_eq, Bool.eq_iff_iff, decide_eq_true_iff]
  simp only [all, hnext, List.find?_nil, apply_ite (Option.map _), Option.map_some,
    Option.map_none]
  -- both sides are tests in a row by now, and ask the same one after the other
  exact if_congr Iff.rfl rfl <| if_congr Iff.rfl rfl <| if_congr Iff.rfl rfl <|
    if_congr (hbound _ _) rfl <| if_congr hconsistent rfl <| if_congr (hbound _ _) rfl rfl

theorem firstViolation?_eq_none_iff {a b c : S} :
    firstViolation? a b c = none ↔ ∀ law : Law, law.Asserts a b c := by
  simp only [firstViolation?_eq_find?, Option.map_eq_none_iff, List.find?_eq_none, mem_all,
    forall_const, decide_eq_true_eq, not_not]

end Law

section Check

variable [Inspect S]

variable (S) in
/-- The check of the laws finds no violation. -/
def Lawful : Prop :=
  ∀ a b c : S, Law.firstViolation? a b c = none

theorem lawful_of_asserts (h : ∀ (law : Law) (a b c : S), law.Asserts a b c) : Lawful S :=
  fun a b c => Law.firstViolation?_eq_none_iff.2 fun law => h law a b c

theorem Lawful.asserts (hS : Lawful S) (law : Law) (a b c : S) : law.Asserts a b c :=
  Law.firstViolation?_eq_none_iff.1 (hS a b c) law

end Check

namespace Lawful

variable [Inspect S] (hS : Lawful S)

include hS

theorem join_comm (a b : S) : join a b = join b a :=
  hS.asserts .commutativity a b a

theorem join_assoc (a b c : S) : join (join a b) c = join a (join b c) :=
  hS.asserts .associativity a b c

theorem join_self (a : S) : join a a = a :=
  hS.asserts .idempotence a a a

theorem below_iff {a b : S} : below a b ↔ join a b = b :=
  hS.asserts .subsumptionConsistency a b a

theorem below_refl (a : S) : below a a :=
  hS.below_iff.2 (hS.join_self a)

theorem below_trans {a b c : S} (hab : below a b) (hbc : below b c) : below a c := by
  rw [hS.below_iff] at hab hbc ⊢
  rw [← hbc, ← hS.join_assoc, hab]

theorem below_antisymm {a b : S} (hab : below a b) (hba : below b a) : a = b := by
  rw [hS.below_iff] at hab hba
  rw [← hba, hS.join_comm, hab]

theorem below_join_left (a b : S) : below a (join a b) := by
  rw [hS.below_iff, ← hS.join_assoc, hS.join_self]

theorem below_join_right (a b : S) : below b (join a b) := by
  rw [hS.join_comm]
  exact hS.below_join_left b a

theorem join_below {a b c : S} (ha : below a c) (hb : below b c) : below (join a b) c := by
  rw [hS.below_iff] at ha hb ⊢
  rw [hS.join_assoc, hb, ha]

theorem below_widen_left (a b : S) : below a (widen a b) :=
  (hS.asserts .wideningUpperBound a b a).1

theorem below_widen_right (a b : S) : below b (widen a b) :=
  (hS.asserts .wideningUpperBound a b a).2

theorem below_merge_left (w : Widening) (current incoming : S) (updates : Nat) :
    below current (w.merge current incoming updates) := by
  unfold Widening.merge
  split
  · exact hS.below_widen_left _ _
  · exact hS.below_join_left _ _

theorem below_merge_right (w : Widening) (current incoming : S) (updates : Nat) :
    below incoming (w.merge current incoming updates) := by
  unfold Widening.merge
  split
  · exact hS.below_widen_right _ _
  · exact hS.below_join_right _ _

end Lawful

theorem Widening.merge_never (current incoming : S) (updates : Nat) :
    Widening.never.merge current incoming updates = join current incoming := rfl

end Dataflow
