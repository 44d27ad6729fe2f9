/-!
# Abstract domains

The operations that the engine uses of a lattice of stores or values. A domain promises no law: the
engine runs on any of them, and `Dataflow.Domain.Law` checks the laws on samples.
-/

namespace Dataflow

/-- Join, order test and widening of abstract states. A domain that gives the join alone has the
order of that join and widens by joining.

States are compared by equality, here and in the engine: a type that brings a comparison of its own
is covered only if this holds between equal states and no others. -/
class AbstractDomain (S : Type) [DecidableEq S] where
  /-- The least upper bound. -/
  join : S → S → S
  /-- Whether the first state is subsumed by the second. -/
  below : S → S → Bool := fun a b => decide (join a b = b)
  /-- An upper bound of both states that ends ascending chains. -/
  widen : S → S → S := join

/-- A domain of node values, which are compared by equality as states are; `top` is the value of a
node about which nothing is known. -/
class ValueDomain (V : Type) [DecidableEq V] extends AbstractDomain V where
  top : V

export AbstractDomain (join below widen)
export ValueDomain (top)

end Dataflow
