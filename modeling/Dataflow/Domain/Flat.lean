import Dataflow.Domain.Basic
import Dataflow.Text.Inspect

/-!
# The flat lattice

`bottom` is below every known value and every known value is below `top`; two different known
values are incomparable. Widening goes to `top` on any growth, so no chain of widenings is longer
than two steps although the carrier may be infinite.
-/

namespace Dataflow

inductive Flat (α : Type)
  | bottom
  | exact (value : α)
  | top
  deriving DecidableEq

namespace Flat

variable {α : Type}

def join [DecidableEq α] : Flat α → Flat α → Flat α
  | bottom, b => b
  | a, bottom => a
  | exact a, exact b => if a = b then exact a else top
  | _, _ => top

def meet [DecidableEq α] : Flat α → Flat α → Flat α
  | top, b => b
  | a, top => a
  | exact a, exact b => if a = b then exact a else bottom
  | _, _ => bottom

def below [DecidableEq α] (a b : Flat α) : Bool :=
  decide (a.join b = b)

def widen [DecidableEq α] (a b : Flat α) : Flat α :=
  if b.below a then a else top

/-- The value, if exactly one is known. -/
def value? : Flat α → Option α
  | exact a => some a
  | _ => none

instance [DecidableEq α] : ValueDomain (Flat α) where
  join := join
  below := below
  widen := widen
  top := top

instance [Inspect α] : Inspect (Flat α) where
  inspect
    | bottom => "Bottom"
    | exact a => s!"Exact({inspect a})"
    | top => "Top"

end Flat

end Dataflow
