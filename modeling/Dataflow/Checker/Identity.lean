import Dataflow.Domain.Flat
import Dataflow.Domain.VarStore
import Dataflow.Transfer.Visitor

/-!
# The identity checker

Nothing is known at the entry, and no node changes that.
-/

namespace Dataflow.IdentityChecker

def visitor : Visitor (Flat Int64) (VarStore (Flat Int64)) := {}

def transfer : Transfer (Flat Int64) (VarStore (Flat Int64)) where
  initial g := .topFor g.variableNames.toList
  visit := visitor.visit
  notes _ := []

end Dataflow.IdentityChecker
