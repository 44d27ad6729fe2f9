/-!
# Depth-first order

A depth-first search that visits successors in their order. A vertex is finished after all that it
reaches first; the finished vertices, the last one first, are the reverse postorder.
-/

namespace Dataflow

/-- The vertices seen so far, and those of them that are finished, the last one first. -/
structure Search where
  seen : List Nat
  finished : List Nat

namespace Search

/-- Visits what is unseen below a vertex. The depth bounds the length of a path of newly seen
vertices, so the number of vertices is always enough. -/
def explore (successors : Nat → List Nat) : Nat → Search → Nat → Search
  | 0, s, _ => s
  | depth + 1, s, v =>
    if v ∈ s.seen then s
    else
      let below := (successors v).foldl (explore successors depth) { s with seen := v :: s.seen }
      { below with finished := v :: below.finished }

/-- The reverse postorder of the vertices that the start reaches, among `count` vertices. -/
def reversePostorder (count : Nat) (successors : Nat → List Nat) (start : Nat) : List Nat :=
  (explore successors count ⟨[], []⟩ start).finished

end Search

end Dataflow
