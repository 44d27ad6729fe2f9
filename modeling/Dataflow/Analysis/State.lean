import Dataflow.Analysis.Event
import Dataflow.Analysis.Pass
import Dataflow.Analysis.Solution
import Dataflow.Analysis.Worklist

/-!
# States of a run

The solution so far, the blocks that wait, and the record of what has happened. `receive` is the
only way in which a state comes to the entry of a block: it is recorded there if it is not subsumed,
and a block whose recorded state grows is queued unless it waits already.
-/

namespace Dataflow

inductive BlockStatus
  /-- Nothing has reached the block. -/
  | unvisited
  | queued
  | processing
  /-- Visited, and nothing newer has come since. -/
  | stable
  deriving DecidableEq

structure RunState (V S : Type) extends Solution V S where
  statuses : Table BlockStatus
  /-- How often the recorded state of a block has grown. -/
  updates : Table Nat
  queue : List BlockId
  events : Array Event
  log : Array (NodeVisit V S)

namespace RunState

variable {V S : Type}

def empty : RunState V S where
  toSolution := .empty
  statuses := .empty
  updates := .empty
  queue := []
  events := #[]
  log := #[]

def status (s : RunState V S) (b : BlockId) : BlockStatus :=
  (s.statuses.get? b).getD .unvisited

def updatesOf (s : RunState V S) (b : BlockId) : Nat :=
  (s.updates.get? b).getD 0

def emit (s : RunState V S) (e : Event) : RunState V S :=
  { s with events := s.events.push e }

def setStatus (s : RunState V S) (b : BlockId) (status : BlockStatus) : RunState V S :=
  { s with statuses := s.statuses.insert b status }

/-- Queues a block that does not wait yet. -/
def enqueue (order : WorklistOrder) (g : Graph) (s : RunState V S) (b : BlockId) : RunState V S :=
  if s.status b = .queued then s
  else { s.setStatus b .queued with queue := Worklist.push order g b s.queue }

/-- Records a state at the entry of a block, and queues the block. -/
def record (order : WorklistOrder) (g : Graph) (s : RunState V S) (source target : BlockId)
    (state : S) : RunState V S :=
  enqueue order g { s.emit (.updated source target) with before := s.before.insert target state }
    target

/-- Announces the update of a block, if it is one that widens. -/
def announce (w : Widening) (s : RunState V S) (target : BlockId) : RunState V S :=
  let updates := s.updatesOf target
  if w.startsAfter updates then s.emit (.wideningStarted target updates)
  else if w.widensAfter updates then s.emit (.widened target updates)
  else s

variable [DecidableEq S] [AbstractDomain S]

/-- Takes in a state that was sent along an edge. -/
def receive (c : AnalysisConfig) (g : Graph) (s : RunState V S) (source target : BlockId)
    (incoming : S) : RunState V S :=
  match s.before.get? target with
  | none => s.record c.order g source target incoming
  | some recorded =>
    if below incoming recorded then s.emit (.subsumed source target)
    else
      let updates := s.updatesOf target
      let merged := c.widening.merge recorded incoming updates
      if merged = recorded then s
      else
        let s := s.announce c.widening target
        { s with updates := s.updates.insert target (updates + 1) }.record c.order g source target
          merged

/-- Keeps what a visit of a node has found. -/
def keepVisit (c : AnalysisConfig) (s : RunState V S) (v : NodeVisit V S) : RunState V S :=
  { s with
    values := s.values.insert v.node.id v.result.value
    nodeStates := if c.recordNodeStores then s.nodeStates.insert v.node.id v.state else s.nodeStates
    events := s.events ++ (v.notes.map Event.noted).toArray
    log := s.log.push v }

def deliver (c : AnalysisConfig) (g : Graph) (source : BlockId) (s : RunState V S) :
    Sending S → RunState V S
  | .normal target state => s.receive c g source target state
  | .withheld branch rule => s.emit (.withheld source branch rule)
  | .thrown exception target state =>
    (s.emit (.exceptionalEdge source exception target)).receive c g source target state

/-- Passes over a block from its recorded state, and sends what comes out of it. -/
def process (t : Transfer V S) (c : AnalysisConfig) (g : Graph) (s : RunState V S) (b : Block)
    (entry : S) : RunState V S :=
  let visits := t.pass g.nodes s.values entry (g.nodesOf b)
  let s := visits.foldl (keepVisit c) s
  let s := { s with after := s.after.insert b.id (Pass.outflow b.shape entry visits) }
  let s := (Sending.all b.shape entry visits).foldl (deliver c g b.id) s
  if s.status b.id = .processing then s.setStatus b.id .stable else s

end RunState

end Dataflow
