import Dataflow.Domain.Flat
import Dataflow.Domain.NameSet
import Dataflow.Transfer.Visitor

/-!
# The tag checker

Collects tags along the paths: the labels of markers, the outcomes of operators, the methods that
have been called, and what has been thrown.
-/

namespace Dataflow

structure Tags where
  names : NameSet
  deriving DecidableEq

namespace Tags

def add (s : Tags) (tag : String) : Tags :=
  ⟨s.names.insert tag⟩

instance : AbstractDomain Tags where
  join s t := ⟨s.names.union t.names⟩

instance : Inspect Tags where
  inspect s := s!"Tags({inspect s.names})"

end Tags

/-- The tags at the entry, and the exceptions that operators and calls throw. -/
structure TagChecker where
  initial : Tags := ⟨.empty⟩
  throws : List ExceptionType := []

namespace TagChecker

/-- The result with a tagged state for every exception. -/
def throwing (c : TagChecker) (what : String) (i : NodeInput (Flat Int64) Tags)
    (r : NodeResult (Flat Int64) Tags) : NodeResult (Flat Int64) Tags :=
  c.throws.foldl (fun r e => r.withThrown e (i.state.add s!"thrown:{what}:{e}")) r

def visitor (c : TagChecker) : Visitor (Flat Int64) Tags where
  marker label i :=
    let tagged := i.state.add label
    .single (.exact (Int64.ofNat tagged.names.size)) tagged
  binary _ _ _ i := .split .top (i.state.add "then") (i.state.add "else")
  unary _ _ i := c.throwing "unary" i (.split .bottom (i.state.add "yes") (i.state.add "no"))
  invocation method _ _ i := c.throwing method i (.single .top (i.state.add s!"after:{method}"))

def transfer (c : TagChecker) : Transfer (Flat Int64) Tags where
  initial _ := c.initial
  visit := c.visitor.visit
  notes _ := []

end TagChecker

end Dataflow
