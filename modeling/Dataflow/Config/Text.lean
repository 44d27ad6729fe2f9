import Dataflow.Analysis.Config
import Dataflow.Text.Quoted

/-!
# Texts of settings
-/

namespace Dataflow

instance : Inspect Widening where
  inspect
    | .never => "Never"
    | .always => "Always"
    | .delayed n => s!"Delayed({inspect n})"

instance : Inspect WorklistOrder where
  inspect
    | .reversePostorder => "ReversePostorder"
    | .fifo => "Fifo"

instance : Inspect DeadBlockPolicy where
  inspect
    | .skip => "Skip"
    | .reject => "Reject"

instance : Inspect AnalysisConfig where
  inspect c :=
    let fields := [("max_block_visits", inspect c.maxBlockVisits),
      ("widening", inspect c.widening), ("order", inspect c.order),
      ("dead_blocks", inspect c.deadBlocks), ("record_node_stores", inspect c.recordNodeStores)]
    let texts := fields.map fun (name, value) => s!"{name}: {value}"
    "AnalysisConfig \x7b " ++ ", ".intercalate texts ++ " \x7d"

end Dataflow
