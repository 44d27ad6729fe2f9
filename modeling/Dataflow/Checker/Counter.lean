import Dataflow.Analysis.State
import Dataflow.Domain.Flat
import Dataflow.Transfer.Visitor

/-!
# The counter checker

Counts the markers on a path, up to a limit. Without a limit, only widening ends the count of a
loop. It can ask for cancellation after a number of marker visits.
-/

namespace Dataflow

structure Counter where
  count : UInt64
  deriving DecidableEq

namespace Counter

/-- The greatest counter, to which any growth widens. -/
def full : Counter :=
  ⟨UInt64.ofNat (UInt64.size - 1)⟩

instance : AbstractDomain Counter where
  join a b := if a.count ≤ b.count then b else a
  widen a b := if a.count < b.count then full else a

instance : Inspect Counter where
  inspect c := s!"Counter({inspect c.count.toNat})"

end Counter

structure CounterChecker where
  initial : Counter
  limit : Option UInt64 := none
  /-- The number of marker visits after which to cancel. -/
  cancelAfter : Option Nat := none

namespace CounterChecker

/-- One more, but not past the limit. -/
def next (c : CounterChecker) (count : UInt64) : UInt64 :=
  let more := if count = Counter.full.count then count else count + 1
  c.limit.elim more (min · more)

def visitor (c : CounterChecker) : Visitor (Flat Int64) Counter where
  marker label i :=
    let next := c.next i.state.count
    if label = "reset" then .single .bottom ⟨0⟩
    else if label = "split" then .split .top ⟨next⟩ i.state
    else .single (.exact next.toInt64) ⟨next⟩

def transfer (c : CounterChecker) : Transfer (Flat Int64) Counter where
  initial _ := c.initial
  visit := c.visitor.visit
  notes _ := []

def isMarker : NodeKind → Bool
  | .marker _ => true
  | _ => false

/-- How many markers have been visited. -/
def markerVisits (log : Array (NodeVisit (Flat Int64) Counter)) : Nat :=
  log.foldl (fun count v => if isMarker v.node.kind then count + 1 else count) 0

/-- Cancellation is asked for by a marker visit, so never before the first one. -/
def cancelled (c : CounterChecker) (s : RunState (Flat Int64) Counter) : Bool :=
  c.cancelAfter.any fun count => max count 1 ≤ markerVisits s.log

end CounterChecker

end Dataflow
