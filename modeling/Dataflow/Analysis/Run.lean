import Dataflow.Analysis.Error
import Dataflow.Analysis.State

/-!
# Runs

A run starts with the initial state at the entry and visits waiting blocks until none waits. It
fails if a block is visited too often, or if cancellation has been raised when a block is about to
be visited. `runFor` bounds the number of blocks taken from the queue, and `run` takes a bound that
no run with a cap on visits needs.
-/

namespace Dataflow

structure Analysis (V S : Type) where
  transfer : Transfer V S
  config : AnalysisConfig := {}
  /-- Whether the caller has raised cancellation by the time the run has come this far. -/
  cancelled : RunState V S → Bool := fun _ => false

/-- A run that has ended. -/
structure Run (V S : Type) where
  state : RunState V S
  failure : Option AnalysisError

namespace Run

variable {V S : Type}

def result (r : Run V S) : Except AnalysisError (Solution V S) :=
  match r.failure with
  | some e => .error e
  | none => .ok r.state.toSolution

end Run

/-- A run on its way. -/
inductive Progress (V S : Type)
  | running (state : RunState V S)
  | ended (run : Run V S)

namespace Analysis

variable {V S : Type} [DecidableEq S] [AbstractDomain S]

/-- The state of a run before its first visit, or its end if dead code is refused. -/
def start (a : Analysis V S) (g : Graph) : Progress V S :=
  match a.config.deadBlocks, g.deadCode with
  | .reject, first :: _ => .ended ⟨.empty, some (.unreachableBlock first)⟩
  | _, dead =>
    let s : RunState V S := match dead with
      | [] => .empty
      | first :: _ => RunState.empty.emit (.skippingDeadCode dead.length first)
    let s := s.emit (.starting g.blocks.size g.nodes.size dead.length)
    .running (s.receive a.config g entryBlock entryBlock (a.transfer.initial g))

/-- Visits a block that has been taken from the queue. -/
def visitBlock (a : Analysis V S) (g : Graph) (s : RunState V S) (b : BlockId) : Progress V S :=
  let visits := s.visitsOf b + 1
  let s := { s with visits := s.visits.insert b visits, totalVisits := s.totalVisits + 1 }
  if a.config.exceeded visits then .ended ⟨s, some (.nonConvergence b visits)⟩
  else
    let s := s.setStatus b .processing
    match g.block? b, s.before.get? b with
    | some block, some entry =>
      .running ((s.emit (.visiting b block.kind visits)).process a.transfer a.config g block entry)
    | _, _ => .running s

/-- Takes the next block from the queue, if there is one. -/
def step (a : Analysis V S) (g : Graph) (s : RunState V S) : Progress V S :=
  match s.queue with
  | [] => .ended ⟨s.emit (.fixpointReached s.totalVisits), none⟩
  | b :: rest =>
    let s := { s with queue := rest }
    if a.cancelled s then .ended ⟨s.emit (.cancelled b), some .cancelled⟩
    else a.visitBlock g s b

def runFrom (a : Analysis V S) (g : Graph) : Nat → Progress V S → Option (Run V S)
  | _, .ended r => some r
  | 0, .running _ => none
  | fuel + 1, .running s => a.runFrom g fuel (a.step g s)

/-- The run, if it ends within so many steps. -/
def runFor (a : Analysis V S) (g : Graph) (fuel : Nat) : Option (Run V S) :=
  a.runFrom g fuel (a.start g)

/-- A run with a cap visits every block at most as often as the cap allows, and its next step is its
last. Without a cap the bound is out of reach. -/
def budget (a : Analysis V S) (g : Graph) : Nat :=
  match a.config.maxBlockVisits with
  | some cap => g.blocks.size * cap + 1
  | none => UInt64.size

def run (a : Analysis V S) (g : Graph) : Option (Run V S) :=
  a.runFor g (a.budget g)

end Analysis

end Dataflow
