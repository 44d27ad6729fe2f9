import Dataflow.Domain.Basic
import Dataflow.Text.Inspect

/-!
# The nullness lattice

A value is never null, or it may be: two points, the first below the second.
-/

namespace Dataflow

inductive Nullness
  | nonNull
  | nullable
  deriving DecidableEq

namespace Nullness

def join : Nullness → Nullness → Nullness
  | nonNull, b => b
  | nullable, _ => nullable

instance : ValueDomain Nullness where
  join := join
  top := nullable

instance : Inspect Nullness where
  inspect
    | nonNull => "NonNull"
    | nullable => "Nullable"

end Nullness

end Dataflow
