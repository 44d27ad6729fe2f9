import Dataflow.Decimal.Shortest

/-!
# Decimals beyond binary64

The greatest finite binary64 number is `(2 ^ 53 - 1) * 2 ^ 971`. Its significand is odd, so from
half a unit above it on all numbers round to infinity, the tie included. `overflows_iff` says that
`overflows` is this comparison of exact numbers; it only spares the powers of ten that cannot
change the answer.
-/

namespace Dataflow.Decimal

/-- The least number that rounds to infinity. -/
def infinityBound : Nat :=
  (power 2 54 - 1) * power 2 970

/-- The number of digits of the bound. -/
def infinityDigits : Nat :=
  309

/-- The exponent, cut to a range beyond which it does not matter whether the decimal is greater
than the bound: here `10 ^ exponent` alone reaches it, there all digits are behind the point. -/
def relevantExponent (d : Decimal) : Int :=
  max (-((d.digits.log2 + 1 : Nat) : Int)) (min d.exponent infinityDigits)

/-- Whether the decimal rounds to infinity. -/
def overflows (d : Decimal) : Bool :=
  let exponent := d.relevantExponent
  infinityBound * power 10 (-exponent) ≤ d.digits * power 10 exponent

theorem power_of_nonpos (base : Nat) {k : Int} (h : k ≤ 0) : power base k = 1 := by
  rw [power, Int.toNat_of_nonpos h]
  rfl

theorem power_mono {base : Nat} (hbase : 0 < base) {k l : Int} (h : k ≤ l) :
    power base k ≤ power base l :=
  Nat.pow_le_pow_right hbase (Int.toNat_le_toNat h)

theorem infinityBound_pos : 0 < infinityBound := by
  decide +kernel

theorem infinityBound_le_power : infinityBound ≤ power 10 infinityDigits := by
  decide +kernel

theorem lt_infinityBound_mul {digits : Nat} {k : Int} (h : digits.log2 < k) :
    digits < infinityBound * power 10 k :=
  calc digits < Nat.pow 2 (digits.log2 + 1) := Nat.lt_log2_self
    _ ≤ Nat.pow 2 k.toNat := Nat.pow_le_pow_right (by decide) (by omega)
    _ ≤ power 10 k := Nat.pow_le_pow_left (by decide) _
    _ ≤ infinityBound * power 10 k := Nat.le_mul_of_pos_left _ infinityBound_pos

theorem infinityBound_le_mul {digits : Nat} {k : Int} (h : infinityDigits ≤ k)
    (pos : 0 < digits) : infinityBound ≤ digits * power 10 k :=
  calc infinityBound ≤ power 10 infinityDigits := infinityBound_le_power
    _ ≤ power 10 k := power_mono (by decide) h
    _ ≤ digits * power 10 k := Nat.le_mul_of_pos_left _ pos

/-- A decimal overflows exactly if its exact value is not below the bound. -/
theorem overflows_iff (d : Decimal) : d.overflows ↔
    infinityBound * power 10 (-d.exponent) ≤ d.digits * power 10 d.exponent := by
  rw [overflows, decide_eq_true_iff]
  generalize hk : d.relevantExponent = k
  simp only [relevantExponent] at hk
  by_cases low : d.exponent < -((d.digits.log2 + 1 : Nat) : Int)
  · rw [power_of_nonpos 10 (show k ≤ 0 by omega),
      power_of_nonpos 10 (show d.exponent ≤ 0 by omega), Nat.mul_one]
    exact iff_of_false (Nat.not_le.2 (lt_infinityBound_mul (by omega)))
      (Nat.not_le.2 (lt_infinityBound_mul (by omega)))
  by_cases high : infinityDigits < d.exponent
  · rw [power_of_nonpos 10 (show -k ≤ 0 by omega),
      power_of_nonpos 10 (show -d.exponent ≤ 0 by omega), Nat.mul_one]
    rcases Nat.eq_zero_or_pos d.digits with zero | pos
    · rw [zero, Nat.zero_mul, Nat.zero_mul]
    · exact iff_of_true (infinityBound_le_mul (by omega) pos)
        (infinityBound_le_mul (by omega) pos)
  rw [show k = d.exponent by omega]

end Dataflow.Decimal
