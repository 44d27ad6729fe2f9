import Dataflow.Graph.ExceptionMap
import Dataflow.Graph.FlowRule
import Dataflow.Graph.Node

/-!
# Blocks

The structural units of a graph: the entry and the two exits, which hold no nodes, straight-line
blocks, blocks with one boolean test, and blocks whose nodes may throw.
-/

namespace Dataflow

inductive SpecialKind
  | entry
  | exit
  | exceptionalExit
  deriving DecidableEq

def SpecialKind.name : SpecialKind → String
  | entry => "Entry"
  | exit => "Exit"
  | exceptionalExit => "ExceptionalExit"

inductive BlockKind
  | special (kind : SpecialKind)
  | regular
  | conditional
  | exceptional
  deriving DecidableEq

def BlockKind.title : BlockKind → String
  | special .entry => "entry"
  | special .exit => "exit"
  | special .exceptionalExit => "exceptional-exit"
  | regular => "regular"
  | conditional => "conditional"
  | exceptional => "exceptional"

/-- One of the two edges that leave a conditional block. -/
structure BranchEdge where
  target : BlockId
  rule : FlowRule
  deriving DecidableEq

inductive BlockShape
  | entry (next : BlockId)
  | exit
  | exceptionalExit
  | regular (nodes : List NodeId) (next : BlockId)
  | conditional (condition : NodeId) (thenEdge elseEdge : BranchEdge)
  /-- Normal completion goes to `next`, an exception of a listed type to its handler. -/
  | exceptional (nodes : List NodeId) (next : BlockId) (handlers : ExceptionMap BlockId)
  deriving DecidableEq

structure Block where
  id : BlockId
  shape : BlockShape
  deriving DecidableEq

/-- The first occurrence of every element. -/
def firstOccurrences {α : Type} [DecidableEq α] : List α → List α
  | [] => []
  | a :: rest => a :: (firstOccurrences rest).filter (· ≠ a)

section FirstOccurrences

variable {α : Type} [DecidableEq α]

theorem mem_firstOccurrences {a : α} : ∀ {l : List α}, a ∈ firstOccurrences l ↔ a ∈ l
  | [] => Iff.rfl
  | b :: rest => by
    rw [firstOccurrences, List.mem_cons, List.mem_cons, List.mem_filter, mem_firstOccurrences]
    by_cases hab : a = b <;> simp [hab]

theorem nodup_firstOccurrences : ∀ l : List α, (firstOccurrences l).Nodup
  | [] => List.nodup_nil
  | a :: rest => by
    rw [firstOccurrences, List.nodup_cons]
    exact ⟨by simp, (nodup_firstOccurrences rest).filter _⟩

theorem firstOccurrences_concat (a : α) : ∀ l : List α,
    firstOccurrences (l ++ [a]) =
      if a ∈ l then firstOccurrences l else firstOccurrences l ++ [a]
  | [] => rfl
  | b :: rest => by
    rw [List.cons_append, firstOccurrences, firstOccurrences_concat a rest, firstOccurrences]
    by_cases hrest : a ∈ rest
    · rw [if_pos hrest, if_pos (List.mem_cons_of_mem _ hrest)]
    · rw [if_neg hrest, List.filter_append]
      by_cases hab : a = b
      · simp [hab]
      · simp [hrest, hab]

end FirstOccurrences

namespace BlockShape

def kind : BlockShape → BlockKind
  | entry _ => .special .entry
  | exit => .special .exit
  | exceptionalExit => .special .exceptionalExit
  | regular .. => .regular
  | conditional .. => .conditional
  | exceptional .. => .exceptional

/-- The nodes, in evaluation order. -/
def nodes : BlockShape → List NodeId
  | regular nodes _ | exceptional nodes _ _ => nodes
  | conditional condition _ _ => [condition]
  | entry _ | exit | exceptionalExit => []

/-- The target of every edge: the normal one or the two branches, then the handlers. -/
def targets : BlockShape → List BlockId
  | entry next | regular _ next => [next]
  | exit | exceptionalExit => []
  | conditional _ thenEdge elseEdge => [thenEdge.target, elseEdge.target]
  | exceptional _ next handlers => next :: handlers.values

end BlockShape

namespace Block

def kind (b : Block) : BlockKind :=
  b.shape.kind

def nodes (b : Block) : List NodeId :=
  b.shape.nodes

/-- The targets of the block's edges; one that several edges share is listed once. -/
def successors (b : Block) : List BlockId :=
  firstOccurrences b.shape.targets

def special? (b : Block) : Option SpecialKind :=
  match b.kind with
  | .special kind => some kind
  | _ => none

end Block

end Dataflow
