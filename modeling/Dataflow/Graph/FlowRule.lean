import Dataflow.Domain.Basic

/-!
# Flow rules

The test of a conditional block leaves one state for either outcome. A flow rule on each of the two
edges says which of them travels along the edge, if any.
-/

namespace Dataflow

inductive Branch
  | thenBranch
  | elseBranch
  deriving DecidableEq

inductive FlowRule
  /-- Either edge carries the state of its own outcome. -/
  | eachToEach
  | thenToBoth
  | elseToBoth
  /-- The then edge carries the join of both states, and the else edge nothing. -/
  | bothToThen
  /-- The else edge carries the join of both states, and the then edge nothing. -/
  | bothToElse
  deriving DecidableEq

def Branch.name : Branch → String
  | .thenBranch => "Then"
  | .elseBranch => "Else"

namespace FlowRule

def name : FlowRule → String
  | eachToEach => "EachToEach"
  | thenToBoth => "ThenToBoth"
  | elseToBoth => "ElseToBoth"
  | bothToThen => "BothToThen"
  | bothToElse => "BothToElse"

/-- The state that travels along an edge under its rule. -/
def select {S : Type} [DecidableEq S] [AbstractDomain S] (rule : FlowRule) (branch : Branch)
    (thenState elseState : S) : Option S :=
  match rule, branch with
  | eachToEach, .thenBranch => some thenState
  | eachToEach, .elseBranch => some elseState
  | thenToBoth, _ => some thenState
  | elseToBoth, _ => some elseState
  | bothToThen, .thenBranch => some (join thenState elseState)
  | bothToElse, .elseBranch => some (join thenState elseState)
  | bothToThen, .elseBranch => none
  | bothToElse, .thenBranch => none

/-- Whether an edge carries a state at all under its rule. -/
def carries : FlowRule → Branch → Bool
  | bothToThen, .elseBranch => false
  | bothToElse, .thenBranch => false
  | _, _ => true

end FlowRule

end Dataflow
