/-!
# Bindings in name order

Association lists whose names ascend strictly, so that two of them are equal exactly when they
bind the same names to the same values (`ext_lookup`). Names are compared code point by code point.
-/

namespace Dataflow.Bindings

variable {α : Type}

def Ascending (bindings : List (String × α)) : Prop :=
  bindings.Pairwise fun a b => a.1 < b.1

def lookup (name : String) : List (String × α) → Option α
  | [] => none
  | (other, a) :: rest => if name = other then some a else lookup name rest

/-- Binds the name, in its place; an older binding of it goes. -/
def insert (name : String) (a : α) : List (String × α) → List (String × α)
  | [] => [(name, a)]
  | (other, b) :: rest =>
    if name < other then (name, a) :: (other, b) :: rest
    else if name = other then (name, a) :: rest
    else (other, b) :: insert name a rest

def erase (name : String) (bindings : List (String × α)) : List (String × α) :=
  bindings.filter fun binding => binding.1 ≠ name

theorem mem_insert {name : String} {a : α} {binding : String × α} :
    ∀ {bindings : List (String × α)}, binding ∈ insert name a bindings →
      binding = (name, a) ∨ binding ∈ bindings
  | [], h => by simpa [insert] using h
  | (other, b) :: rest, h => by
    unfold insert at h
    split at h
    · simpa using h
    · split at h
      · rcases List.mem_cons.1 h with h | h
        · exact .inl h
        · exact .inr (List.mem_cons_of_mem _ h)
      · rcases List.mem_cons.1 h with h | h
        · exact .inr (h ▸ List.mem_cons_self)
        · exact (mem_insert h).imp_right (List.mem_cons_of_mem _)

theorem ascending_insert (name : String) (a : α) :
    ∀ {bindings : List (String × α)}, Ascending bindings → Ascending (insert name a bindings)
  | [], _ => List.pairwise_singleton _ _
  | (other, b) :: rest, h => by
    obtain ⟨hfirst, hrest⟩ := List.pairwise_cons.1 h
    unfold insert
    split
    case isTrue hlt =>
      refine List.pairwise_cons.2 ⟨fun binding hmem => ?_, h⟩
      rcases List.mem_cons.1 hmem with rfl | hmem
      · exact hlt
      · exact String.lt_trans hlt (hfirst _ hmem)
    case isFalse hlt =>
      split
      case isTrue heq => exact List.pairwise_cons.2 ⟨fun c hc => heq ▸ hfirst c hc, hrest⟩
      case isFalse hne =>
        refine List.pairwise_cons.2 ⟨fun binding hmem => ?_, ascending_insert name a hrest⟩
        rcases mem_insert hmem with rfl | hmem
        · show other < name
          grind
        · exact hfirst _ hmem

theorem ascending_erase (name : String) {bindings : List (String × α)} (h : Ascending bindings) :
    Ascending (erase name bindings) :=
  h.filter _

theorem lookup_insert (name other : String) (a : α) :
    ∀ bindings : List (String × α), Ascending bindings →
      lookup other (insert name a bindings) = if other = name then some a else lookup other bindings
  | [], _ => rfl
  | (first, b) :: rest, h => by
    obtain ⟨-, hrest⟩ := List.pairwise_cons.1 h
    have ih := lookup_insert name other a rest hrest
    unfold insert
    split
    · rfl
    · split
      · subst_vars
        simp only [lookup]
        split <;> rfl
      · simp only [lookup, ih]
        grind

theorem lookup_erase (name other : String) :
    ∀ bindings : List (String × α),
      lookup other (erase name bindings) = if other = name then none else lookup other bindings
  | [] => by simp [erase, lookup]
  | (first, b) :: rest => by
    have ih := lookup_erase name other rest
    unfold erase at ih ⊢
    simp only [List.filter_cons, lookup]
    split <;> simp only [lookup, ih] <;> grind

/-- Every name bound after the first one is greater. -/
theorem lookup_eq_none_of_lt {name other : String} {b : α} {rest : List (String × α)}
    (h : Ascending ((other, b) :: rest)) (hlt : name < other) :
    lookup name ((other, b) :: rest) = none := by
  induction rest generalizing other b with
  | nil => simp only [lookup]; grind
  | cons next rest ih =>
    obtain ⟨hfirst, hrest⟩ := List.pairwise_cons.1 h
    have hnext : other < next.1 := hfirst next List.mem_cons_self
    rw [lookup, ih hrest (String.lt_trans hlt hnext)]
    grind

theorem lookup_tail {name other : String} {b : α} {rest : List (String × α)}
    (h : Ascending ((other, b) :: rest)) :
    lookup name rest = if name = other then none else lookup name ((other, b) :: rest) := by
  split
  · subst_vars
    cases rest with
    | nil => rfl
    | cons next rest =>
      obtain ⟨hfirst, hrest⟩ := List.pairwise_cons.1 h
      exact lookup_eq_none_of_lt hrest (hfirst next List.mem_cons_self)
  · simp [lookup, *]

/-- Ascending bindings are determined by their look-ups. -/
theorem ext_lookup {bindings others : List (String × α)} (h : Ascending bindings)
    (h' : Ascending others) (heq : ∀ name, lookup name bindings = lookup name others) :
    bindings = others := by
  induction bindings generalizing others with
  | nil =>
    cases others with
    | nil => rfl
    | cons first rest => simpa [lookup] using heq first.1
  | cons first rest ih =>
    obtain ⟨x, a⟩ := first
    cases others with
    | nil => simpa [lookup] using heq x
    | cons first' rest' =>
      obtain ⟨y, b⟩ := first'
      have hxy : x = y := by
        have hx := heq x
        have hy := heq y
        by_cases hlt : x < y
        · rw [lookup_eq_none_of_lt h' hlt] at hx
          simp [lookup] at hx
        · by_cases hgt : y < x
          · rw [lookup_eq_none_of_lt h hgt] at hy
            simp [lookup] at hy
          · grind
      subst hxy
      have hab : a = b := by simpa [lookup] using heq x
      subst hab
      obtain ⟨-, hrest⟩ := List.pairwise_cons.1 h
      obtain ⟨-, hrest'⟩ := List.pairwise_cons.1 h'
      rw [ih hrest hrest' fun name => by rw [lookup_tail h, lookup_tail h', heq name]]

end Dataflow.Bindings
