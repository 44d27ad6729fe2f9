import Dataflow.Analysis.Pass
import Dataflow.Analysis.Solution
import Dataflow.Text.Inspect

/-!
# Post-fixpoints

A check of a finished solution: what a visited block sends along a normal or a conditional edge is
subsumed by the state recorded at the edge's target.
-/

namespace Dataflow

/-- An edge along which more is sent than is recorded. -/
structure PostFixpointFault (S : Type) where
  source : BlockId
  target : BlockId
  sent : S
  recorded : Option S

def PostFixpointFault.text {S : Type} [Inspect S] (f : PostFixpointFault S) : String :=
  s!"{f.source.text} -> {f.target.text}: sent {inspect f.sent}, recorded {inspect f.recorded}"

namespace Solution

variable {V S : Type} [DecidableEq S] [AbstractDomain S]

/-- What a block with this outflow sends along its normal or conditional edges. -/
def sentNormally (shape : BlockShape) (out : Outflow S) : List (BlockId × S) :=
  match shape with
  | .exit | .exceptionalExit => []
  | .entry next | .regular _ next | .exceptional _ next _ => [(next, out.joined)]
  | .conditional _ thenEdge elseEdge =>
    let sent (branch : Branch) (edge : BranchEdge) : Option (BlockId × S) :=
      (edge.rule.select branch out.thenState out.elseState).map (edge.target, ·)
    (sent .thenBranch thenEdge).toList ++ (sent .elseBranch elseEdge).toList

def edgeFault? (r : Solution V S) (source target : BlockId) (sent : S) :
    Option (PostFixpointFault S) :=
  let recorded := r.stateBefore? target
  if recorded.any (below sent) then none else some ⟨source, target, sent, recorded⟩

def blockFault? (r : Solution V S) (b : Block) : Option (PostFixpointFault S) :=
  (r.outflow? b.id).bind fun out =>
    (sentNormally b.shape out).findSome? fun (target, sent) => r.edgeFault? b.id target sent

/-- The first edge along which more is sent than is recorded, by block. -/
def postFixpointFault? (r : Solution V S) (g : Graph) : Option (PostFixpointFault S) :=
  g.blocks.toList.findSome? r.blockFault?

end Solution

end Dataflow
