import Dataflow.Domain.Flat
import Dataflow.Transfer.Visitor

/-!
# The tabulated checker

A domain and a transfer function given by tables. The tables need not make a lattice, so that runs
on unlawful domains can be looked at.
-/

namespace Dataflow

/-- The operations on the numbers below some bound; an operation without a table comes from the
join. -/
structure OperationTable where
  join : List (List Nat)
  below : Option (List (List Bool)) := none
  widen : Option (List (List Nat)) := none

/-- The entry of a row and a column; outside the table, the default. -/
def entryAt {α : Type} (rows : List (List α)) (a b : Nat) (default : α) : α :=
  ((rows[a]?).bind (·[b]?)).getD default

structure Element (t : OperationTable) where
  index : Nat
  deriving DecidableEq

namespace Element

variable {t : OperationTable}

def join (a b : Element t) : Element t :=
  ⟨entryAt t.join a.index b.index 0⟩

instance : AbstractDomain (Element t) where
  join := join
  below a b := match t.below with
    | some rows => entryAt rows a.index b.index false
    | none => join a b = b
  widen a b := match t.widen with
    | some rows => ⟨entryAt rows a.index b.index 0⟩
    | none => join a b

instance : Inspect (Element t) where
  inspect e := s!"Elem({inspect e.index})"

end Element

structure TabulatedChecker (t : OperationTable) where
  initial : Element t
  /-- The images under markers, by label; an image lists the result for every element. -/
  effects : List (String × List Nat) := []
  /-- The images for either outcome of markers that are tests. -/
  splits : List (String × List Nat × List Nat) := []

namespace TabulatedChecker

variable {t : OperationTable}

def imageOf (image : List Nat) (e : Element t) : Element t :=
  ⟨image.getD e.index 0⟩

def visitor (c : TabulatedChecker t) : Visitor (Flat Int64) (Element t) where
  marker label i :=
    match c.splits.lookup label, c.effects.lookup label with
    | some (t, e), _ => .split .top (imageOf t i.state) (imageOf e i.state)
    | none, some image => .single (.exact (Int64.ofNat i.state.index)) (imageOf image i.state)
    | none, none => i.unchanged

def transfer (c : TabulatedChecker t) : Transfer (Flat Int64) (Element t) where
  initial _ := c.initial
  visit := c.visitor.visit
  notes _ := []

end TabulatedChecker

end Dataflow
