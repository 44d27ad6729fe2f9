import Dataflow.Domain.Basic

/-!
# When to widen

A strategy decides, from the number of times that a recorded state has grown so far, whether new
information is joined to it or widens it.
-/

namespace Dataflow

inductive Widening
  | never
  | always
  | delayed (updates : Nat)
  deriving DecidableEq

namespace Widening

/-- Whether the update after `updates` earlier ones widens. -/
def widensAfter : Widening → Nat → Bool
  | never, _ => false
  | always, _ => true
  | delayed n, updates => n ≤ updates

def merge {S : Type} [DecidableEq S] [AbstractDomain S] (w : Widening) (current incoming : S)
    (updates : Nat) : S :=
  if w.widensAfter updates then widen current incoming else join current incoming

/-- Whether the update after `updates` earlier ones is the first that widens. -/
def startsAfter (w : Widening) (updates : Nat) : Bool :=
  w.widensAfter updates && (updates == 0 || !w.widensAfter (updates - 1))

end Widening

end Dataflow
