import Dataflow.Analysis.Solution
import Dataflow.Text.Inspect

/-!
# Dumps of solutions

A text with one paragraph for every block: its visits, the state at its entry, its nodes, and what
holds when it completes.
-/

namespace Dataflow.Solution

variable {V S : Type} [Inspect S]

def outflowLines : Option (Outflow S) → List String
  | some (.single state) => [s!"  after: {inspect state}"]
  | some (.split t e) => [s!"  then: {inspect t}", s!"  else: {inspect e}"]
  | none => []

def blockLines (r : Solution V S) (g : Graph) (b : Block) : List String :=
  let header := s!"{b.id.text} [{b.kind.title}] visits={r.visitsOf b.id}"
  if g.isReachable b.id then
    header :: ((r.stateBefore? b.id).map fun state => s!"  before: {inspect state}").toList ++
      (g.nodesOf b).map (fun n => s!"  {n.text}") ++ outflowLines (r.outflow? b.id)
  else [header, "  dead"]

def dump (r : Solution V S) (g : Graph) : String :=
  String.join ((g.blocks.toList.flatMap (r.blockLines g)).map (· ++ "\n"))

end Dataflow.Solution
