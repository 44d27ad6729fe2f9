import Dataflow.Domain.Flat
import Dataflow.Domain.Nullness
import Dataflow.Domain.VarStore

/-!
# Shrinking

Smaller candidates of a value or store, for the search of a least counterexample. A store shrinks
by losing one variable or by shrinking the value of one.
-/

namespace Dataflow

class Shrink (α : Type) where
  /-- Candidates that are smaller, in the order in which to try them. -/
  shrink : α → List α

export Shrink (shrink)

namespace Shrink

/-- The list without elements equal to the one before. -/
def dropRepeats {α : Type} [DecidableEq α] : List α → List α
  | a :: b :: rest => if a = b then dropRepeats (b :: rest) else a :: dropRepeats (b :: rest)
  | short => short

/-- Zero, half the number, and the number one closer to zero. -/
def integers (n : Int64) : List Int64 :=
  if n = 0 then [] else dropRepeats [0, n / 2, if 0 < n then n - 1 else n + 1]

instance : Shrink (Flat Int64) where
  shrink
    | .bottom => []
    | .top => [.bottom]
    | .exact n => .bottom :: (integers n).map .exact

instance : Shrink Nullness where
  shrink
    | .nullable => [.nonNull]
    | .nonNull => []

instance {V : Type} [Shrink V] : Shrink (VarStore V) where
  shrink s := s.names.map s.erase ++
    s.bindings.flatMap fun (x, v) => (shrink v).map (s.set x)

end Shrink

end Dataflow
