import Dataflow.Domain.Basic
import Dataflow.Domain.Bindings
import Dataflow.Text.Quoted

/-!
# Stores of variables

A store binds variables to values. A variable without a binding is lower than every value: it has
not been defined on any path to this point. Join and widening work variable by variable, and a
variable that only one of the two stores binds keeps its value. Main facts: `get?_set`,
`get?_combine`, and that stores with the same look-ups are equal (`ext_get?`).
-/

namespace Dataflow

structure VarStore (V : Type) where
  bindings : List (String × V)
  ascending : Bindings.Ascending bindings
  deriving DecidableEq

namespace VarStore

variable {V : Type}

def empty : VarStore V :=
  ⟨[], List.Pairwise.nil⟩

def get? (s : VarStore V) (x : String) : Option V :=
  Bindings.lookup x s.bindings

def set (s : VarStore V) (x : String) (v : V) : VarStore V :=
  ⟨Bindings.insert x v s.bindings, Bindings.ascending_insert x v s.ascending⟩

def erase (s : VarStore V) (x : String) : VarStore V :=
  ⟨Bindings.erase x s.bindings, Bindings.ascending_erase x s.ascending⟩

def size (s : VarStore V) : Nat :=
  s.bindings.length

def isEmpty (s : VarStore V) : Bool :=
  s.bindings.isEmpty

/-- The bound variables, in order. -/
def names (s : VarStore V) : List String :=
  s.bindings.map (·.1)

/-- Later bindings of a variable replace earlier ones. -/
def ofList (bindings : List (String × V)) : VarStore V :=
  bindings.foldl (fun s (x, v) => s.set x v) empty

/-- Every given variable bound to `top`. -/
def topFor [DecidableEq V] [ValueDomain V] (names : List String) : VarStore V :=
  ofList (names.map fun x => (x, top))

/-- All bindings of both stores; where both bind a variable, `f` gives the value. -/
def combine (f : V → V → V) (s t : VarStore V) : VarStore V :=
  t.bindings.foldl (fun merged (x, v) => merged.set x ((s.get? x).elim v (f · v))) s

/-- Every variable of the first store has a binding in the second, at or above its own. -/
def subsumedBy (below : V → V → Bool) (s t : VarStore V) : Bool :=
  s.bindings.all fun (x, v) => (t.get? x).any (below v)

instance [DecidableEq V] [ValueDomain V] : AbstractDomain (VarStore V) where
  join := combine join
  below := subsumedBy below
  widen := combine widen

instance [Inspect V] : Inspect (VarStore V) where
  inspect s :=
    let binding := fun (x, v) => s!"{inspect x}: {inspect v}"
    "VarStore \x7b vars: \x7b" ++ ", ".intercalate (s.bindings.map binding) ++ "\x7d \x7d"

@[simp] theorem get?_empty (x : String) : (empty : VarStore V).get? x = none := rfl

theorem get?_set (s : VarStore V) (x y : String) (v : V) :
    (s.set x v).get? y = if y = x then some v else s.get? y :=
  Bindings.lookup_insert x y v s.bindings s.ascending

theorem get?_erase (s : VarStore V) (x y : String) :
    (s.erase x).get? y = if y = x then none else s.get? y :=
  Bindings.lookup_erase x y s.bindings

/-- Stores with the same look-ups are equal. -/
theorem ext_get? {s t : VarStore V} (h : ∀ x, s.get? x = t.get? x) : s = t := by
  obtain ⟨bs, hs⟩ := s
  obtain ⟨bt, ht⟩ := t
  have heq : bs = bt := Bindings.ext_lookup hs ht h
  subst heq
  rfl

theorem get?_foldl_set (f : String → V → V) (y : String) :
    ∀ {bindings : List (String × V)} (s : VarStore V), Bindings.Ascending bindings →
      (bindings.foldl (fun merged (x, v) => merged.set x (f x v)) s).get? y =
        ((Bindings.lookup y bindings).map (f y)).or (s.get? y)
  | [], _, _ => rfl
  | (x, v) :: rest, s, h => by
    obtain ⟨-, hrest⟩ := List.pairwise_cons.1 h
    rw [List.foldl_cons, get?_foldl_set f y _ hrest, Bindings.lookup_tail h, get?_set]
    by_cases hy : y = x
    · subst hy
      simp [Bindings.lookup]
    · simp [Bindings.lookup, hy]

/-- A variable that only one store binds keeps its value. -/
theorem get?_combine (f : V → V → V) (s t : VarStore V) (x : String) :
    (combine f s t).get? x =
      match s.get? x, t.get? x with
      | some u, some v => some (f u v)
      | some u, none => some u
      | none, v => v := by
  have h := get?_foldl_set (fun y v => (s.get? y).elim v (f · v)) x s t.ascending
  unfold combine
  rw [h]
  unfold get?
  cases Bindings.lookup x s.bindings <;> cases Bindings.lookup x t.bindings <;> rfl

end VarStore

end Dataflow
