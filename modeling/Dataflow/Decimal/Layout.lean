import Dataflow.Decimal.Shortest

/-!
# Texts of binary64 numbers

A layout says where the positional form ends and how the special values are spelled; `render`
writes the shortest decimal of a number by it.
-/

namespace Dataflow.Decimal

/-- The positional form is for numbers from `10 ^ (leastPoint - 1)` up to `10 ^ greatestPoint`; it
ends in `wholeEnding` when it has no fraction. All other numbers have an exponent. -/
structure Layout where
  leastPoint : Int
  greatestPoint : Int
  wholeEnding : String
  exponentMark : String
  zero : String
  infinity : String
  notANumber : String

def zeros (n : Nat) : String :=
  String.ofList (List.replicate n '0')

/-- The digits with the point after the first `point` of them. -/
def positional (layout : Layout) (digits : String) (point : Int) : String :=
  let count : Int := digits.length
  if point ≤ 0 then "0." ++ zeros (-point).toNat ++ digits
  else if count ≤ point then digits ++ zeros (point - count).toNat ++ layout.wholeEnding
  else String.ofList (digits.toList.take point.toNat) ++ "." ++
    String.ofList (digits.toList.drop point.toNat)

/-- One digit before the point, and the power of ten. -/
def scientific (layout : Layout) (digits : String) (point : Int) : String :=
  let rest := digits.toList.drop 1
  let fraction := if rest.isEmpty then "" else "." ++ String.ofList rest
  String.ofList (digits.toList.take 1) ++ fraction ++ layout.exponentMark ++ toString (point - 1)

def write (layout : Layout) (d : Decimal) : String :=
  let digits := d.digits.repr
  let point : Int := digits.length + d.exponent
  if layout.leastPoint ≤ point ∧ point ≤ layout.greatestPoint then positional layout digits point
  else scientific layout digits point

def render (layout : Layout) (bits : UInt64) : String :=
  let sign := if isNegative bits then "-" else ""
  match Binary64.ofBits bits with
  | .notANumber => layout.notANumber
  | .infinite => sign ++ layout.infinity
  | .zero => sign ++ layout.zero
  | .finite m q => sign ++ write layout (shortest m q)

end Dataflow.Decimal
