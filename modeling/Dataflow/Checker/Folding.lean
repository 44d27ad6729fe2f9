import Dataflow.Domain.Flat
import Dataflow.Graph.Node

/-!
# Folding of constants

Operators on 64-bit integers, computed exactly and then narrowed; truth values are zero and one, and
every other number counts as true. A result that does not fit, or that does not exist, is `top`.
-/

namespace Dataflow.Folding

/-- The integer as a 64-bit number, if it fits. -/
def narrow? (n : Int) : Option Int64 :=
  if Int64.minValue.toInt ≤ n ∧ n ≤ Int64.maxValue.toInt then some (Int64.ofInt n) else none

def ofBool (b : Bool) : Int64 :=
  if b then 1 else 0

/-- Division truncates toward zero, and a remainder has the sign of the dividend. The least number
has neither a quotient nor a remainder by minus one. -/
def evaluate? (op : BinaryOp) (a b : Int64) : Option Int64 :=
  match op with
  | .add => narrow? (a.toInt + b.toInt)
  | .sub => narrow? (a.toInt - b.toInt)
  | .mul => narrow? (a.toInt * b.toInt)
  | .div => if b = 0 then none else narrow? (a.toInt.tdiv b.toInt)
  | .rem =>
    if b = 0 ∨ a = Int64.minValue ∧ b = -1 then none else narrow? (a.toInt.tmod b.toInt)
  | .eq => some (ofBool (a = b))
  | .notEq => some (ofBool (a ≠ b))
  | .lt => some (ofBool (a < b))
  | .ltEq => some (ofBool (a ≤ b))
  | .gt => some (ofBool (b < a))
  | .gtEq => some (ofBool (b ≤ a))
  | .and => some (ofBool (a ≠ 0 ∧ b ≠ 0))
  | .or => some (ofBool (a ≠ 0 ∨ b ≠ 0))

def orTop : Option Int64 → Flat Int64
  | some n => .exact n
  | none => .top

def binary (op : BinaryOp) : Flat Int64 → Flat Int64 → Flat Int64
  | .bottom, _ => .bottom
  | _, .bottom => .bottom
  | .exact a, .exact b => orTop (evaluate? op a b)
  | _, _ => .top

def unary : UnaryOp → Flat Int64 → Flat Int64
  | _, .bottom => .bottom
  | _, .top => .top
  | .neg, .exact n => orTop (narrow? (-n.toInt))
  | .not, .exact n => .exact (ofBool (n = 0))

end Dataflow.Folding
