import Dataflow.Graph.Basic
import Dataflow.Proofs.LawfulStores

/-!
# Bound names

Which names stores and sets of names bind that are built from lists of names.
-/

namespace Dataflow

namespace VarStore

variable {V : Type}

theorem get?_foldl_set_const (v : V) (y : String) : ∀ (names : List String) (s : VarStore V),
    (names.foldl (fun s x => s.set x v) s).get? y = if y ∈ names then some v else s.get? y
  | [], s => by simp
  | x :: rest, s => by
    rw [List.foldl_cons, get?_foldl_set_const v y rest, get?_set]
    by_cases hyx : y = x <;> simp [hyx]

theorem isSome_get?_foldl_set {α : Type} (name : α → String) (value : α → V) (x : String) :
    ∀ (l : List α) (s : VarStore V),
      ((l.foldl (fun s a => s.set (name a) (value a)) s).get? x).isSome ↔
        x ∈ l.map name ∨ (s.get? x).isSome
  | [], s => by simp
  | a :: rest, s => by
    rw [List.foldl_cons, isSome_get?_foldl_set name value x rest, get?_set, List.map_cons,
      List.mem_cons]
    by_cases hx : x = name a <;> simp [hx]

theorem get?_topFor [DecidableEq V] [ValueDomain V] (names : List String) (y : String) :
    (topFor names : VarStore V).get? y = if y ∈ names then some top else none := by
  rw [topFor, ofList, List.foldl_map]
  exact get?_foldl_set_const top y names empty

theorem mem_names_iff {s : VarStore V} {x : String} : x ∈ s.names ↔ (s.get? x).isSome := by
  rw [names, List.mem_map, Option.isSome_iff_exists]
  constructor
  · rintro ⟨⟨x, v⟩, hmem, rfl⟩
    exact ⟨v, (Bindings.mem_iff_lookup_eq_some s.ascending).1 hmem⟩
  · rintro ⟨v, hv⟩
    exact ⟨(x, v), (Bindings.mem_iff_lookup_eq_some s.ascending).2 hv, rfl⟩

end VarStore

theorem NameSet.mem_toList_ofList {names : List String} {x : String} :
    x ∈ (ofList names).toList ↔ x ∈ names := by
  have hmembers : ∀ (names : List String) (s : NameSet),
      (names.foldl insert s).members = names.foldl (fun s x => s.set x ()) s.members := by
    intro names
    induction names with
    | nil => exact fun _ => rfl
    | cons y rest ih => exact fun s => ih (s.insert y)
  rw [toList, VarStore.mem_names_iff, ofList, hmembers, VarStore.get?_foldl_set_const]
  by_cases hx : x ∈ names <;> simp [hx, empty]

namespace Graph

variable {g : Graph} {x : String}

theorem mem_variableNames {n : Node} (hn : n ∈ g.nodes) (hx : n.kind.accessedName? = some x) :
    x ∈ g.variableNames.toList :=
  NameSet.mem_toList_ofList.2 (List.mem_filterMap.2 ⟨n, Array.mem_toList_iff.2 hn, hx⟩)

theorem mem_variableNames_of_localName? {o : NodeId}
    (h : (g.node? o).bind (·.kind.localName?) = some x) : x ∈ g.variableNames.toList := by
  obtain ⟨node, hnode, hx⟩ := Option.bind_eq_some_iff.1 h
  refine mem_variableNames (Array.mem_of_getElem? hnode) ?_
  obtain ⟨id, block, kind⟩ := node
  cases kind with
  | localVariable name => exact hx
  | _ => cases hx

end Graph

end Dataflow
