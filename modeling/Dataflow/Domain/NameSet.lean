import Dataflow.Domain.VarStore

/-!
# Sets of names

A set of names in code point order, kept as the bound variables of a store without values.
-/

namespace Dataflow

structure NameSet where
  members : VarStore Unit
  deriving DecidableEq

namespace NameSet

def empty : NameSet :=
  ⟨.empty⟩

def contains (s : NameSet) (name : String) : Bool :=
  (s.members.get? name).isSome

def insert (s : NameSet) (name : String) : NameSet :=
  ⟨s.members.set name ()⟩

def ofList (names : List String) : NameSet :=
  names.foldl insert empty

/-- The members, in order. -/
def toList (s : NameSet) : List String :=
  s.members.names

def size (s : NameSet) : Nat :=
  s.members.size

def union (s t : NameSet) : NameSet :=
  ⟨s.members.combine (fun _ _ => ()) t.members⟩

instance : Inspect NameSet where
  inspect s := "\x7b" ++ ", ".intercalate (s.toList.map inspect) ++ "\x7d"

end NameSet

end Dataflow
