/-!
# Shortest decimals

A finite binary64 number is `m * 2 ^ q` for integers `m` and `q`. Every real in an interval around
it rounds to it, the ends included when `m` is even. `shortest` gives the decimal with the fewest
digits in that interval, and of those the nearest to the number; a tie goes to the greater. All of
it is exact arithmetic on natural numbers.
-/

namespace Dataflow

/-- The decimal `digits * 10 ^ exponent`. -/
structure Decimal where
  digits : Nat
  exponent : Int
  deriving DecidableEq

namespace Decimal

/-- A binary64 number by its parts. -/
inductive Binary64
  | zero
  | finite (significand : Nat) (exponent : Int)
  | infinite
  | notANumber
  deriving DecidableEq

/-- The bit of the significand that a normal number does not store. -/
def hiddenBit : Nat :=
  4503599627370496

/-- A power, which is one if the exponent is negative. -/
def power (base : Nat) (exponent : Int) : Nat :=
  base.pow exponent.toNat

/-- The number without its sign. Its exponent field is 11 bits and its fraction field 52 bits
wide. -/
def Binary64.ofBits (bits : UInt64) : Binary64 :=
  let n := bits.toNat
  let fraction : Nat := n % hiddenBit
  let field : Nat := n / hiddenBit % 2048
  if field = 2047 then
    if fraction = 0 then .infinite else .notANumber
  else if field = 0 then
    if fraction = 0 then .zero else .finite fraction (-1074)
  else .finite (hiddenBit + fraction) ((field : Int) - 1075)

def isNegative (bits : UInt64) : Bool :=
  UInt64.size / 2 ≤ bits.toNat

/-- The interval of reals that round to a number, scaled by `scale`, with the number itself. -/
structure Rounding where
  low : Nat
  value : Nat
  high : Nat
  scale : Nat
  closed : Bool

/-- The number below a power of two is half as far away as the one above it, except at the
least exponent. -/
def rounding (significand : Nat) (exponent : Int) : Rounding :=
  let below := if significand = hiddenBit ∧ exponent ≠ -1074 then 1 else 2
  let up := power 2 (exponent - 2)
  { low := (4 * significand - below) * up
    value := 4 * significand * up
    high := (4 * significand + 2) * up
    scale := power 2 (2 - exponent)
    closed := significand % 2 == 0 }

/-- Whether `digits * 10 ^ exponent` rounds to the number. -/
def Rounding.contains (r : Rounding) (d : Decimal) : Bool :=
  let x := d.digits * power 10 d.exponent * r.scale
  let unit := power 10 (-d.exponent)
  if r.closed then r.low * unit ≤ x && x ≤ r.high * unit
  else r.low * unit < x && x < r.high * unit

/-- The least `z` with `value * 10 ^ z` at least the scale, where `value` is below it. -/
def leadingZeros (value scale : Nat) : Nat → Nat
  | 0 => 0
  | fuel + 1 => if scale ≤ value * 10 then 0 else leadingZeros (value * 10) scale fuel + 1

/-- The `p` for which the number lies between `10 ^ (p - 1)` and `10 ^ p`, the first included. No
binary64 number begins with more than 323 zeros after the point. -/
def Rounding.point (r : Rounding) : Int :=
  if r.scale ≤ r.value then ((Nat.toDigits 10 (r.value / r.scale)).length : Int)
  else -(leadingZeros r.value r.scale 330 : Int)

/-- Of the two neighbours of the number on the grid of `10 ^ exponent`, the nearer one that rounds
to the number. -/
def Rounding.onGrid? (r : Rounding) (exponent : Int) : Option Decimal :=
  let unit := r.scale * power 10 exponent
  let value := r.value * power 10 (-exponent)
  let below : Decimal := ⟨value / unit, exponent⟩
  let above : Decimal := ⟨value / unit + 1, exponent⟩
  let rest := value % unit
  match r.contains below, r.contains above with
  | true, true => some (if 2 * rest < unit then below else above)
  | true, false => some below
  | false, true => some above
  | false, false => none

/-- The same decimal without trailing zeros. -/
def trim : Nat → Decimal → Decimal
  | 0, d => d
  | fuel + 1, d =>
    if d.digits ≠ 0 ∧ d.digits % 10 = 0 then trim fuel ⟨d.digits / 10, d.exponent + 1⟩ else d

/-- Grids of one digit, two digits and so on, until one holds a decimal that rounds to the number.
Seventeen digits always suffice. -/
def Rounding.shortest? (r : Rounding) : Option Decimal :=
  let p := r.point
  (List.range 17).findSome? fun k => (r.onGrid? (p - (k + 1 : Nat))).map (trim 20)

/-- All digits of `significand * 2 ^ exponent`. -/
def exact (significand : Nat) (exponent : Int) : Decimal :=
  if 0 ≤ exponent then ⟨significand * power 2 exponent, 0⟩
  else ⟨significand * power 5 (-exponent), exponent⟩

def shortest (significand : Nat) (exponent : Int) : Decimal :=
  (rounding significand exponent).shortest?.getD (exact significand exponent)

end Decimal

end Dataflow
