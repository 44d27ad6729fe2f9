import Dataflow.Graph.Block
import Dataflow.Transfer.Basic

/-!
# Events

What a run tells about its progress, in the order in which it happens; `Event.text` is one line for
each, with its level, message and fields.
-/

namespace Dataflow

inductive Event
  | skippingDeadCode (count : Nat) (first : BlockId)
  | starting (blocks nodes dead : Nat)
  | visiting (block : BlockId) (kind : BlockKind) (visits : Nat)
  | noted (note : Note)
  /-- A flow rule keeps an edge from carrying a state. -/
  | withheld (block : BlockId) (branch : Branch) (rule : FlowRule)
  | exceptionalEdge (block : BlockId) (exception : ExceptionType) (target : BlockId)
  | subsumed (source target : BlockId)
  | wideningStarted (block : BlockId) (updates : Nat)
  | widened (block : BlockId) (updates : Nat)
  | updated (source target : BlockId)
  | cancelled (block : BlockId)
  | fixpointReached (visits : Nat)
  deriving DecidableEq

inductive Level
  | trace
  | debug
  | warn
  deriving DecidableEq

def Level.name : Level → String
  | trace => "TRACE"
  | debug => "DEBUG"
  | warn => "WARN"

namespace Event

def level : Event → Level
  | skippingDeadCode .. | wideningStarted .. => .warn
  | starting .. | cancelled _ | fixpointReached _ => .debug
  | _ => .trace

def message : Event → String
  | skippingDeadCode .. => "skipping blocks unreachable from entry"
  | starting .. => "starting dataflow analysis"
  | visiting .. => "visiting block"
  | noted note => note.message
  | withheld .. => "edge carries no store"
  | exceptionalEdge .. => "exceptional edge"
  | subsumed .. => "store already subsumed"
  | wideningStarted .. => "widening started"
  | widened .. => "widening store"
  | updated .. => "store updated"
  | cancelled _ => "analysis cancelled"
  | fixpointReached _ => "fixpoint reached"

def fields : Event → List (String × String)
  | skippingDeadCode count first => [("count", inspect count), ("first", first.text)]
  | starting blocks nodes dead =>
    [("blocks", inspect blocks), ("nodes", inspect nodes), ("dead", inspect dead)]
  | visiting block kind visits =>
    [("block", block.text), ("kind", kind.title), ("visits", inspect visits)]
  | noted note => note.fields
  | withheld block branch rule =>
    [("block", block.text), ("branch", branch.name), ("rule", rule.name)]
  | exceptionalEdge block exception target =>
    [("block", block.text), ("exception", exception), ("target", target.text)]
  | subsumed source target | updated source target =>
    [("from", source.text), ("to", target.text)]
  | wideningStarted block updates | widened block updates =>
    [("block", block.text), ("updates", inspect updates)]
  | cancelled block => [("block", block.text)]
  | fixpointReached visits => [("visits", inspect visits)]

def text (e : Event) : String :=
  " ".intercalate (e.level.name :: e.message :: e.fields.map fun (name, value) => s!"{name}={value}")

end Event

end Dataflow
