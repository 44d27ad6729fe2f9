import Dataflow.Transfer.Basic

/-!
# Solutions

What an analysis has found at every point of a graph, by block and node number. Blocks into which
nothing flows have no states.
-/

namespace Dataflow

structure Solution (V S : Type) where
  /-- The states at block entries. -/
  before : Table S
  /-- What holds when blocks complete normally. -/
  after : Table (Outflow S)
  values : Table V
  /-- The states right before nodes, if the settings ask for them. -/
  nodeStates : Table S
  visits : Table Nat
  totalVisits : Nat

namespace Solution

variable {V S : Type}

def empty : Solution V S where
  before := .empty
  after := .empty
  values := .empty
  nodeStates := .empty
  visits := .empty
  totalVisits := 0

def stateBefore? (r : Solution V S) (b : BlockId) : Option S :=
  r.before.get? b

def outflow? (r : Solution V S) (b : BlockId) : Option (Outflow S) :=
  r.after.get? b

def value? (r : Solution V S) (n : NodeId) : Option V :=
  r.values.get? n

def stateBeforeNode? (r : Solution V S) (n : NodeId) : Option S :=
  r.nodeStates.get? n

/-- How often a block has been visited. -/
def visitsOf (r : Solution V S) (b : BlockId) : Nat :=
  (r.visits.get? b).getD 0

def exitState? (r : Solution V S) : Option S :=
  r.stateBefore? exitBlock

def exceptionalExitState? (r : Solution V S) : Option S :=
  r.stateBefore? exceptionalExitBlock

end Solution

end Dataflow
