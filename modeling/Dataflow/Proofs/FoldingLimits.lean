import Dataflow.Proofs.ConstantRising
import Dataflow.Proofs.ExactFolding

/-!
# Where folding gives up

Known numbers fold to what the operator comes to in the integers (`BinaryOp.ComesTo`), where this is
a 64-bit number, and to `top` in the few cases where it is none or nothing (`BinaryOp.Exceeds`). On
the flat lattice folding is strict and monotone. The main statement is
`ConstantChecker.folding_exact`, of folding with two operands and of visits of operators with one.
-/

namespace Dataflow

/-! ## What an operator comes to -/

/-- Division with remainder, the quotient truncated toward zero: what remains is smaller than the
divisor and has the sign of the dividend. -/
structure TruncatedDivision (a b q r : Int) : Prop where
  eq : r + b * q = a
  lt : r.natAbs < b.natAbs
  nonneg : 0 ≤ a → 0 ≤ r
  nonpos : a ≤ 0 → r ≤ 0

theorem truncatedDivision_iff {a b q r : Int} (hb : b ≠ 0) :
    TruncatedDivision a b q r ↔ a.tdiv b = q ∧ a.tmod b = r := by
  constructor
  · rintro ⟨heq, hlt, hnonneg, hnonpos⟩
    rcases Int.le_total 0 a with ha | ha
    · have hr := hnonneg ha
      exact (Int.tdiv_tmod_unique ha hb).2 ⟨heq, hr, by omega⟩
    · have hr := hnonpos ha
      exact (Int.tdiv_tmod_unique' ha hb).2 ⟨heq, by omega, hr⟩
  · rintro ⟨rfl, rfl⟩
    refine ⟨Int.tmod_add_mul_tdiv a b, ?_, Int.tmod_nonneg b, fun ha => ?_⟩
    · rw [Int.natAbs_tmod]
      exact Nat.mod_lt _ (Int.natAbs_pos.2 hb)
    · exact ((Int.tdiv_tmod_unique' ha hb).1 ⟨rfl, rfl⟩).2.2

theorem exists_remainder_iff {a b q : Int} (hb : b ≠ 0) :
    (∃ r, TruncatedDivision a b q r) ↔ a.tdiv b = q := by
  simp [truncatedDivision_iff hb]

theorem exists_quotient_iff {a b r : Int} (hb : b ≠ 0) :
    (∃ q, TruncatedDivision a b q r) ↔ a.tmod b = r := by
  simp [truncatedDivision_iff hb]

namespace BinaryOp

/-- The integer that an operator comes to. Truth is one and falsity zero, and a number is true if it
is not zero. -/
def ComesTo (op : BinaryOp) (a b n : Int) : Prop :=
  match op with
  | add => n = a + b
  | sub => n = a - b
  | mul => n = a * b
  | div => ∃ r, TruncatedDivision a b n r
  | rem => ∃ q, TruncatedDivision a b q n
  | eq => n = truth (a = b)
  | notEq => n = truth (a ≠ b)
  | lt => n = truth (a < b)
  | ltEq => n = truth (a ≤ b)
  | gt => n = truth (a > b)
  | gtEq => n = truth (a ≥ b)
  | and => n = truth (a ≠ 0 ∧ b ≠ 0)
  | or => n = truth (a ≠ 0 ∨ b ≠ 0)

/-- The operands for which there is no result: a sum, a difference or a product does not fit, or a
division is by zero, or of the least number by minus one. -/
def Exceeds (op : BinaryOp) (a b : Int64) : Prop :=
  match op with
  | add => ¬Fits (a.toInt + b.toInt)
  | sub => ¬Fits (a.toInt - b.toInt)
  | mul => ¬Fits (a.toInt * b.toInt)
  | div | rem => b = 0 ∨ a = Int64.minValue ∧ b = -1
  | _ => False

end BinaryOp

theorem BinaryOp.exact?_eq_some_iff (op : BinaryOp) {a b n : Int64} :
    op.exact? a.toInt b.toInt = some n.toInt ↔
      ¬op.Exceeds a b ∧ op.ComesTo a.toInt b.toInt n.toInt := by
  have hfits : ∀ {k : Int}, k = n.toInt → Fits k := fun h => h ▸ fits_toInt n
  cases op with
  | add | sub | mul =>
    simp only [Exceeds, ComesTo, BinaryOp.exact?, Option.some.injEq, Classical.not_not,
      eq_comm (a := n.toInt)]
    exact ⟨fun h => ⟨hfits h, h⟩, And.right⟩
  | div =>
    by_cases hb : b = 0
    · simp [Exceeds, BinaryOp.exact?, hb]
    · simp only [Exceeds, ComesTo, BinaryOp.exact?, toInt_eq_zero_iff, hb, if_false,
        false_or, Option.some.injEq, ← fits_tdiv_toInt_iff hb,
        exists_remainder_iff (mt toInt_eq_zero_iff.1 hb)]
      exact ⟨fun h => ⟨hfits h, h⟩, And.right⟩
  | rem =>
    by_cases hb : b = 0
    · simp [Exceeds, BinaryOp.exact?, hb]
    · simp only [Exceeds, ComesTo, BinaryOp.exact?, toInt_eq_zero_iff, hb, false_or,
        ← fits_tdiv_toInt_iff hb, exists_quotient_iff (mt toInt_eq_zero_iff.1 hb)]
      by_cases hquotient : Fits (a.toInt.tdiv b.toInt) <;> simp [hquotient]
  | _ =>
    simp only [Exceeds, ComesTo, BinaryOp.exact?, Option.some.injEq, not_false_eq_true, true_and,
      gt_iff_lt, ge_iff_le, eq_comm]

namespace Folding

theorem orTop_eq_top_iff {n : Option Int64} : orTop n = .top ↔ n = none := by
  cases n <;> simp [orTop]

theorem narrow?_eq_none_iff {k : Int} : narrow? k = none ↔ ¬Fits k := by
  simp [narrow?, Fits]

theorem fits_tmod {a b : Int64} (hb : b ≠ 0) : Fits (a.toInt.tmod b.toInt) := by
  have hdivision : TruncatedDivision a.toInt b.toInt _ _ :=
    (truncatedDivision_iff (mt toInt_eq_zero_iff.1 hb)).2 ⟨rfl, rfl⟩
  have hlt := hdivision.lt
  have hle := fits_iff.1 (fits_toInt b)
  rw [fits_iff]
  omega

theorem evaluate?_eq_none_iff (op : BinaryOp) {a b : Int64} :
    evaluate? op a b = none ↔ op.Exceeds a b := by
  cases op with
  | add | sub | mul => rw [evaluate?, narrow?_eq_none_iff, BinaryOp.Exceeds]
  | div =>
    rw [evaluate?, BinaryOp.Exceeds]
    split_ifs with hb
    · simp [hb]
    · rw [narrow?_eq_none_iff, fits_tdiv_toInt_iff hb]
      simp [hb]
  | rem =>
    rw [evaluate?, BinaryOp.Exceeds]
    split_ifs with hexceeds
    · simp [hexceeds]
    · have hb : b ≠ 0 := fun hb => hexceeds (.inl hb)
      rw [narrow?_eq_none_iff]
      simp [hexceeds, fits_tmod hb]
  | _ => simp [evaluate?, BinaryOp.Exceeds]

/-- Folding gives up exactly where there is no result. -/
theorem binary_exact_eq_top_iff (op : BinaryOp) {a b : Int64} :
    binary op (.exact a) (.exact b) = .top ↔ op.Exceeds a b := by
  rw [binary, orTop_eq_top_iff, evaluate?_eq_none_iff]

theorem binary_eq_bottom_iff (op : BinaryOp) {u v : Constant} :
    binary op u v = .bottom ↔ u = .bottom ∨ v = .bottom := by
  constructor
  · intro h
    cases u with
    | bottom => exact .inl rfl
    | exact a =>
      cases v with
      | bottom => exact .inr rfl
      | exact b => exact absurd h (binary_exact_ne_bottom op a b)
      | top => cases h
    | top =>
      cases v with
      | bottom => exact .inr rfl
      | _ => cases h
  · rintro (rfl | rfl)
    · rfl
    · exact binary_bottom_right op u

/-- Only the least number has no negative. -/
theorem unary_exact_eq_top_iff (op : UnaryOp) {a : Int64} :
    unary op (.exact a) = .top ↔ op = .neg ∧ a = Int64.minValue := by
  cases op with
  | neg =>
    have hbounds := fits_iff.1 (fits_toInt a)
    rw [unary, orTop_eq_top_iff, narrow?_eq_none_iff, fits_iff, ← Int64.toInt_inj,
      Int64.toInt_minValue]
    simp only [true_and]
    omega
  | not => simp [unary]

theorem unary_eq_bottom_iff (op : UnaryOp) {u : Constant} :
    unary op u = .bottom ↔ u = .bottom := by
  cases u with
  | bottom => cases op <;> simp [unary]
  | exact a => simp [unary_exact_ne_bottom]
  | top => cases op <;> simp [unary]

end Folding

/-- Two known numbers fold to the integer that the operator comes to, but to `top` exactly if a sum,
difference or product does not fit or a division has no result. A visit of a negation or complement
gives the exact integer too, but `top` for the negative of the least number. Folding and visiting
give `bottom` exactly if an operand is `bottom`, and more for greater operands. -/
theorem ConstantChecker.folding_exact :
    (∀ (op : BinaryOp) (a b : Int64),
      (Folding.binary op (.exact a) (.exact b) = .top ↔ op.Exceeds a b) ∧
      ∀ n, Folding.binary op (.exact a) (.exact b) = .exact n ↔
        ¬op.Exceeds a b ∧ op.ComesTo a.toInt b.toInt n.toInt) ∧
    (∀ (op : BinaryOp) (u v : Constant),
      (Folding.binary op u v = .bottom ↔ u = .bottom ∨ v = .bottom) ∧
      ∀ u' v', below u u' → below v v' →
        below (Folding.binary op u v) (Folding.binary op u' v')) ∧
    ∀ (op : UnaryOp) (o : NodeId) (i : Input),
      (∀ a, i.valueOrTop o = .exact a →
        ((visitor.unary op o i).value = .top ↔ op = .neg ∧ a = Int64.minValue) ∧
        ∀ n, (visitor.unary op o i).value = .exact n ↔ op.exact a.toInt = n.toInt) ∧
      ((visitor.unary op o i).value = .bottom ↔ i.valueOrTop o = .bottom) ∧
      ∀ i' : Input, below (i.valueOrTop o) (i'.valueOrTop o) →
        below (visitor.unary op o i).value (visitor.unary op o i').value := by
  have hvalue : ∀ (op : UnaryOp) (o : NodeId) (i : Input),
      (visitor.unary op o i).value = Folding.unary op (i.valueOrTop o) := fun _ _ _ => rfl
  refine ⟨fun op a b => ⟨Folding.binary_exact_eq_top_iff op, fun n => ?_⟩, fun op u v =>
    ⟨Folding.binary_eq_bottom_iff op, fun u' v' => Folding.binary_mono op⟩, fun op o i => ?_⟩
  · rw [Folding.binary_exact_iff, BinaryOp.exact?_eq_some_iff]
  · simp only [hvalue]
    refine ⟨fun a ha => ?_, Folding.unary_eq_bottom_iff op, fun i' => Folding.unary_mono op⟩
    rw [ha]
    exact ⟨Folding.unary_exact_eq_top_iff op, fun n => Folding.unary_exact_iff op⟩

/-- A remainder has the sign of the dividend, and the least number has none by minus one, although
the integer zero would fit. -/
theorem ConstantChecker.folding_exact_remainders :
    (¬BinaryOp.Exceeds .rem (-7) 2 ∧ BinaryOp.ComesTo .rem (-7) 2 (-1)) ∧
      BinaryOp.Exceeds .rem Int64.minValue (-1) ∧
      Folding.binary .rem (.exact Int64.minValue) (.exact (-1)) = .top := by
  have hexceeds : BinaryOp.Exceeds .rem Int64.minValue (-1) := .inr ⟨rfl, rfl⟩
  exact ⟨((folding_exact.1 .rem (-7) 2).2 (-1)).1 rfl, hexceeds,
    (folding_exact.1 .rem Int64.minValue (-1)).1.2 hexceeds⟩

end Dataflow
