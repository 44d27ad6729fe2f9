import Dataflow.Checker.Folding
import Mathlib.Algebra.Ring.Int.Defs
import Mathlib.Tactic.SplitIfs

/-!
# Folding and exact arithmetic

Operators on integers without bounds (`BinaryOp.exact?`, `UnaryOp.exact`), and folding by them:
known numbers fold to a number exactly where the operator comes to this number
(`Folding.binary_exact_iff`, `Folding.unary_exact_iff`).
-/

namespace Dataflow

/-- Whether the integer is a 64-bit number. -/
def Fits (n : Int) : Prop :=
  Int64.minValue.toInt ≤ n ∧ n ≤ Int64.maxValue.toInt

instance (n : Int) : Decidable (Fits n) :=
  inferInstanceAs (Decidable (_ ∧ _))

/-- The integer for a truth value. -/
def truth (p : Prop) [Decidable p] : Int :=
  if p then 1 else 0

/-- What an operator comes to, if it comes to anything. A division truncates toward zero, and where
its quotient overflows there is no remainder either. -/
def BinaryOp.exact? (op : BinaryOp) (a b : Int) : Option Int :=
  match op with
  | add => some (a + b)
  | sub => some (a - b)
  | mul => some (a * b)
  | div => if b = 0 then none else some (a.tdiv b)
  | rem => if b = 0 ∨ ¬Fits (a.tdiv b) then none else some (a.tmod b)
  | eq => some (truth (a = b))
  | notEq => some (truth (a ≠ b))
  | lt => some (truth (a < b))
  | ltEq => some (truth (a ≤ b))
  | gt => some (truth (b < a))
  | gtEq => some (truth (b ≤ a))
  | and => some (truth (a ≠ 0 ∧ b ≠ 0))
  | or => some (truth (a ≠ 0 ∨ b ≠ 0))

def UnaryOp.exact (op : UnaryOp) (a : Int) : Int :=
  match op with
  | neg => -a
  | not => truth (a = 0)

theorem fits_iff {n : Int} : Fits n ↔ -2 ^ 63 ≤ n ∧ n < 2 ^ 63 := by
  rw [Fits, Int64.toInt_minValue, Int64.toInt_maxValue]
  omega

theorem fits_toInt (n : Int64) : Fits n.toInt :=
  fits_iff.2 ⟨n.le_toInt, n.toInt_lt⟩

/-- The only quotient that overflows is that of the least number by minus one. -/
theorem fits_tdiv_iff {a b : Int} (ha : Fits a) (hb : b ≠ 0) :
    Fits (a.tdiv b) ↔ ¬(a = Int64.minValue.toInt ∧ b = -1) := by
  rw [fits_iff] at ha ⊢
  rw [Int64.toInt_minValue]
  constructor
  · rintro ⟨-, hlt⟩ ⟨rfl, rfl⟩
    rw [Int.tdiv_neg, Int.tdiv_one] at hlt
    omega
  intro hne
  by_cases hone : b.natAbs = 1
  · rcases Int.natAbs_eq_iff.1 hone with rfl | rfl
    · rw [Int.natCast_one, Int.tdiv_one]
      exact ha
    · rw [Int.natCast_one, Int.tdiv_neg, Int.tdiv_one]
      omega
  · have habs : (a.tdiv b).natAbs = a.natAbs / b.natAbs := Int.natAbs_tdiv a b
    have hhalf : a.natAbs / b.natAbs ≤ a.natAbs / 2 := Nat.div_le_div_left (by omega) (by decide)
    omega

theorem toInt_eq_zero_iff {n : Int64} : n.toInt = 0 ↔ n = 0 :=
  Int64.toInt_inj (y := 0)

theorem fits_tdiv_toInt_iff {a b : Int64} (hb : b ≠ 0) :
    Fits (a.toInt.tdiv b.toInt) ↔ ¬(a = Int64.minValue ∧ b = -1) := by
  rw [fits_tdiv_iff (fits_toInt a) (mt toInt_eq_zero_iff.1 hb), Int64.toInt_inj]
  exact not_congr (and_congr_right fun _ => Int64.toInt_inj (y := -1))

namespace Folding

theorem narrow?_eq_some_iff {k : Int} {n : Int64} : narrow? k = some n ↔ n.toInt = k := by
  unfold narrow?
  split_ifs with hfits
  · obtain ⟨hle, hlt⟩ := fits_iff.1 hfits
    rw [Option.some.injEq, ← Int64.toInt_inj, Int64.toInt_ofInt_of_le hle hlt, eq_comm]
  · refine ⟨nofun, ?_⟩
    rintro rfl
    exact absurd (fits_toInt n) hfits

theorem ofBool_eq_iff {p : Prop} [Decidable p] {n : Int64} :
    ofBool p = n ↔ truth p = n.toInt := by
  rw [← Int64.toInt_inj, ofBool, truth]
  by_cases hp : p <;> simp [hp]

/-- Folding comes to a number where the operator does. -/
theorem evaluate?_eq_some_iff (op : BinaryOp) {a b n : Int64} :
    evaluate? op a b = some n ↔ op.exact? a.toInt b.toInt = some n.toInt := by
  cases op with
  | add | sub | mul =>
    rw [evaluate?, narrow?_eq_some_iff, BinaryOp.exact?, Option.some.injEq, eq_comm]
  | div =>
    simp only [evaluate?, BinaryOp.exact?, toInt_eq_zero_iff]
    split_ifs
    · simp
    · rw [narrow?_eq_some_iff, Option.some.injEq, eq_comm]
  | rem =>
    simp only [evaluate?, BinaryOp.exact?, toInt_eq_zero_iff]
    by_cases hb : b = 0
    · simp [hb]
    · simp only [hb, false_or, fits_tdiv_toInt_iff hb, Classical.not_not]
      split_ifs
      · simp
      · rw [narrow?_eq_some_iff, Option.some.injEq, eq_comm]
  | _ =>
    -- Truth values: what is asked of the numbers is asked of the integers.
    simp only [evaluate?, BinaryOp.exact?, Option.some.injEq, ofBool_eq_iff, ne_eq,
      ← toInt_eq_zero_iff, ← Int64.toInt_inj (x := a) (y := b), Int64.lt_iff_toInt_lt,
      Int64.le_iff_toInt_le]

theorem orTop_ne_bottom (n : Option Int64) : orTop n ≠ .bottom := by
  cases n <;> nofun

theorem binary_exact_ne_bottom (op : BinaryOp) (a b : Int64) :
    binary op (.exact a) (.exact b) ≠ .bottom :=
  orTop_ne_bottom (evaluate? op a b)

theorem unary_exact_ne_bottom (op : UnaryOp) (a : Int64) : unary op (.exact a) ≠ .bottom := by
  cases op with
  | neg => exact orTop_ne_bottom _
  | not => nofun

theorem binary_exact_iff (op : BinaryOp) {a b n : Int64} :
    binary op (.exact a) (.exact b) = .exact n ↔ op.exact? a.toInt b.toInt = some n.toInt := by
  rw [← evaluate?_eq_some_iff, binary]
  cases evaluate? op a b <;> simp [orTop]

theorem unary_exact_iff (op : UnaryOp) {a n : Int64} :
    unary op (.exact a) = .exact n ↔ op.exact a.toInt = n.toInt := by
  cases op with
  | neg =>
    rw [unary, UnaryOp.exact, eq_comm (a := -a.toInt), ← narrow?_eq_some_iff]
    cases narrow? (-a.toInt) <;> simp [orTop]
  | not => simp only [unary, UnaryOp.exact, Flat.exact.injEq, ofBool_eq_iff, toInt_eq_zero_iff]

end Folding

end Dataflow
