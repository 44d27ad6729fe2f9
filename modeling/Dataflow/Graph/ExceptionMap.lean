/-!
# Maps from exceptions

Bindings of exception types in the order in which the types were first bound. Binding a type again
replaces its value and keeps its place. Main facts: `get?_insert`, `types_insert`.
-/

namespace Dataflow

/-- The name of an exception class. -/
abbrev ExceptionType := String

structure ExceptionMap (α : Type) where
  entries : List (ExceptionType × α)
  distinct : (entries.map (·.1)).Nodup
  deriving DecidableEq

namespace ExceptionMap

variable {α : Type}

def lookup (e : ExceptionType) : List (ExceptionType × α) → Option α
  | [] => none
  | (other, a) :: rest => if e = other then some a else lookup e rest

def bind (e : ExceptionType) (a : α) : List (ExceptionType × α) → List (ExceptionType × α)
  | [] => [(e, a)]
  | (other, b) :: rest => if e = other then (e, a) :: rest else (other, b) :: bind e a rest

theorem types_bind (e : ExceptionType) (a : α) : ∀ entries : List (ExceptionType × α),
    (bind e a entries).map (·.1) =
      if e ∈ entries.map (·.1) then entries.map (·.1) else entries.map (·.1) ++ [e]
  | [] => rfl
  | (other, b) :: rest => by
    have ih := types_bind e a rest
    unfold bind
    by_cases he : e = other
    · simp [he]
    · rw [if_neg he, List.map_cons, List.map_cons, ih]
      by_cases hrest : e ∈ rest.map (·.1)
      · rw [if_pos hrest, if_pos (List.mem_cons_of_mem _ hrest)]
      · rw [if_neg hrest, if_neg (by rw [List.mem_cons, not_or]; exact ⟨he, hrest⟩)]
        rfl

theorem nodup_types_bind (e : ExceptionType) (a : α) {entries : List (ExceptionType × α)}
    (h : (entries.map (·.1)).Nodup) : ((bind e a entries).map (·.1)).Nodup := by
  rw [types_bind]
  split
  · exact h
  case isFalse hnew =>
    refine List.nodup_append.2 ⟨h, by simp, fun other hother b hb heq => ?_⟩
    rw [List.mem_singleton.1 hb] at heq
    exact hnew (heq ▸ hother)

theorem lookup_bind (e other : ExceptionType) (a : α) :
    ∀ entries : List (ExceptionType × α),
      lookup other (bind e a entries) = if other = e then some a else lookup other entries
  | [] => rfl
  | (first, b) :: rest => by
    have ih := lookup_bind e other a rest
    unfold bind
    split
    · subst_vars
      simp only [lookup]
      split <;> rfl
    · simp only [lookup, ih]
      grind

theorem lookup_of_mem {e : ExceptionType} {a : α} :
    ∀ {entries : List (ExceptionType × α)}, (entries.map (·.1)).Nodup → (e, a) ∈ entries →
      lookup e entries = some a
  | (other, b) :: rest, h, hmem => by
    obtain ⟨hother, hrest⟩ := List.nodup_cons.1 h
    rcases List.mem_cons.1 hmem with heq | hmem
    · cases heq
      exact if_pos rfl
    · have hne : e ≠ other := fun heq => hother (heq ▸ List.mem_map_of_mem (f := (·.1)) hmem)
      rw [lookup, if_neg hne, lookup_of_mem hrest hmem]

def empty : ExceptionMap α :=
  ⟨[], List.nodup_nil⟩

def get? (m : ExceptionMap α) (e : ExceptionType) : Option α :=
  lookup e m.entries

def insert (m : ExceptionMap α) (e : ExceptionType) (a : α) : ExceptionMap α :=
  ⟨bind e a m.entries, nodup_types_bind e a m.distinct⟩

/-- The bound types, in the order in which they were first bound. -/
def types (m : ExceptionMap α) : List ExceptionType :=
  m.entries.map (·.1)

def values (m : ExceptionMap α) : List α :=
  m.entries.map (·.2)

theorem get?_insert (m : ExceptionMap α) (e other : ExceptionType) (a : α) :
    (m.insert e a).get? other = if other = e then some a else m.get? other :=
  lookup_bind e other a m.entries

theorem types_insert (m : ExceptionMap α) (e : ExceptionType) (a : α) :
    (m.insert e a).types = if e ∈ m.types then m.types else m.types ++ [e] :=
  types_bind e a m.entries

theorem get?_of_mem {m : ExceptionMap α} {e : ExceptionType} {a : α} (h : (e, a) ∈ m.entries) :
    m.get? e = some a :=
  lookup_of_mem m.distinct h

/-- The values stand in the order of their types. -/
theorem values_eq (m : ExceptionMap α) : m.values = m.types.filterMap m.get? := by
  have hentries : ∀ entries : List (ExceptionType × α), (∀ entry ∈ entries, entry ∈ m.entries) →
      entries.map (·.2) = (entries.map (·.1)).filterMap m.get? := by
    intro entries
    induction entries with
    | nil => exact fun _ => rfl
    | cons entry rest ih =>
      intro h
      rw [List.map_cons, List.map_cons,
        List.filterMap_cons_some (get?_of_mem (h entry List.mem_cons_self)),
        ih fun other hother => h other (List.mem_cons_of_mem _ hother)]
  exact hentries m.entries fun _ h => h

end ExceptionMap

end Dataflow
