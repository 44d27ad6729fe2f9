import Dataflow.Domain.Nullness
import Dataflow.Domain.VarStore
import Dataflow.Proofs.FlatLattice
import Dataflow.Proofs.LawfulDomain

/-!
# Lawful stores

Flat values and nullness are lawful, and stores of the values of a lawful domain are lawful: join,
order and widening of stores go variable by variable (`get?_join`, `below_iff_get?`). Stores that
bind one variable alone are a copy of the values (`asserts_single_iff`), so the laws of stores and
of values are the same (`lawful_iff`).
-/

namespace Dataflow

/-! ## Values -/

namespace Flat

variable {α : Type} [DecidableEq α]

theorem widen_def (a b : Flat α) :
    AbstractDomain.widen a b = if b.join a = a then a else top := by
  change (if decide (b.join a = a) = true then a else top) = _
  simp only [decide_eq_true_eq]

theorem lawful [Inspect α] : Lawful (Flat α) := by
  refine lawful_of_asserts fun law a b c => ?_
  cases law with
  | commutativity => exact join_comm a b
  | associativity => exact join_assoc a b c
  | idempotence => exact join_self a
  | upperBound => exact join_below_iff.1 (below_refl (a.join b))
  | subsumptionConsistency => simp [Law.Asserts, join_def, below_def]
  | wideningUpperBound =>
    simp only [Law.Asserts, below_def, widen_def, decide_eq_true_eq]
    split
    · exact ⟨join_self a, by assumption⟩
    · exact ⟨join_top a, join_top b⟩

end Flat

theorem Nullness.join_eq_nullable_iff {u v : Nullness} :
    AbstractDomain.join u v = .nullable ↔ u = .nullable ∨ v = .nullable := by
  cases u <;> cases v <;> decide

theorem Nullness.lawful : Lawful Nullness :=
  lawful_of_asserts fun law a b c => by cases law <;> cases a <;> cases b <;> cases c <;> decide

/-! ## Stores -/

namespace Bindings

theorem mem_iff_lookup_eq_some {α : Type} {x : String} {a : α} :
    ∀ {bindings : List (String × α)}, Ascending bindings →
      ((x, a) ∈ bindings ↔ lookup x bindings = some a)
  | [], _ => by simp [lookup]
  | (y, b) :: rest, h => by
    have htail : lookup x rest = if x = y then none else lookup x ((y, b) :: rest) :=
      lookup_tail h
    rw [List.mem_cons, Prod.mk.injEq, mem_iff_lookup_eq_some (List.pairwise_cons.1 h).2, htail]
    by_cases hxy : x = y
    · simp [lookup, hxy, eq_comm]
    · simp [lookup, hxy]

end Bindings

namespace VarStore

variable {V : Type} [DecidableEq V] [ValueDomain V]

theorem get?_join (s t : VarStore V) (x : String) :
    (join s t).get? x =
      match s.get? x, t.get? x with
      | some u, some v => some (join u v)
      | some u, none => some u
      | none, v => v :=
  get?_combine join s t x

theorem below_iff_get? {s t : VarStore V} :
    below s t ↔ ∀ x u, s.get? x = some u → ∃ v, t.get? x = some v ∧ below u v := by
  change subsumedBy below s t = true ↔ _
  simp only [subsumedBy, List.all_eq_true, Option.any_eq_true]
  constructor
  · exact fun h x u hu => h (x, u) ((Bindings.mem_iff_lookup_eq_some s.ascending).2 hu)
  · exact fun h (x, u) hmem => h x u ((Bindings.mem_iff_lookup_eq_some s.ascending).1 hmem)

theorem below_combine_left {f : V → V → V} (hrefl : ∀ u : V, below u u)
    (hf : ∀ u v, below u (f u v)) (s t : VarStore V) : below s (combine f s t) := by
  refine below_iff_get?.2 fun x u hu => ?_
  rw [get?_combine, hu]
  cases t.get? x with
  | none => exact ⟨u, rfl, hrefl u⟩
  | some v => exact ⟨_, rfl, hf u v⟩

theorem below_combine_right {f : V → V → V} (hrefl : ∀ u : V, below u u)
    (hf : ∀ u v, below v (f u v)) (s t : VarStore V) : below t (combine f s t) := by
  refine below_iff_get?.2 fun x v hv => ?_
  rw [get?_combine, hv]
  cases s.get? x with
  | none => exact ⟨v, rfl, hrefl v⟩
  | some u => exact ⟨_, rfl, hf u v⟩

/-- Every law of stores holds variable by variable. -/
theorem lawful [Inspect V] (hV : Lawful V) : Lawful (VarStore V) := by
  refine lawful_of_asserts fun law a b c => ?_
  cases law with
  | commutativity =>
    refine ext_get? fun x => ?_
    rw [get?_join, get?_join]
    cases a.get? x <;> cases b.get? x <;> simp [hV.join_comm]
  | associativity =>
    refine ext_get? fun x => ?_
    simp only [get?_join]
    cases a.get? x <;> cases b.get? x <;> cases c.get? x <;> simp [hV.join_assoc]
  | idempotence =>
    refine ext_get? fun x => ?_
    rw [get?_join]
    cases a.get? x <;> simp [hV.join_self]
  | upperBound =>
    exact ⟨below_combine_left hV.below_refl hV.below_join_left a b,
      below_combine_right hV.below_refl hV.below_join_right a b⟩
  | subsumptionConsistency =>
    rw [Law.Asserts, below_iff_get?]
    constructor
    · refine fun h => ext_get? fun x => ?_
      rw [get?_join]
      rcases ha : a.get? x with _ | u
      · rfl
      · obtain ⟨v, hv, hbelow⟩ := h x u ha
        rw [hv]
        exact congrArg some (hV.below_iff.1 hbelow)
    · intro h x u hu
      have hx := get?_join a b x
      rw [h, hu] at hx
      rcases hb : b.get? x with _ | v <;> rw [hb] at hx
      · cases hx
      · exact ⟨v, rfl, hV.below_iff.2 (Option.some.inj hx).symm⟩
  | wideningUpperBound =>
    exact ⟨below_combine_left hV.below_refl hV.below_widen_left a b,
      below_combine_right hV.below_refl hV.below_widen_right a b⟩

/-! ## Stores of one variable -/

/-- The store that binds this variable alone. -/
def single (x : String) (v : V) : VarStore V :=
  empty.set x v

omit [DecidableEq V] [ValueDomain V] in
theorem get?_single (x y : String) (v : V) :
    (single x v).get? y = if y = x then some v else none := by
  rw [single, get?_set, get?_empty]

omit [DecidableEq V] [ValueDomain V] in
theorem single_inj {x : String} {u v : V} : single x u = single x v ↔ u = v := by
  refine ⟨fun h => ?_, fun h => h ▸ rfl⟩
  have hx := congrArg (get? · x) h
  simpa [get?_single] using hx

omit [DecidableEq V] [ValueDomain V] in
theorem combine_single (f : V → V → V) (x : String) (u v : V) :
    combine f (single x u) (single x v) = single x (f u v) := by
  refine ext_get? fun y => ?_
  rw [get?_combine]
  by_cases hy : y = x <;> simp [get?_single, hy]

theorem below_single (x : String) (u v : V) : below (single x u) (single x v) = below u v := by
  rw [Bool.eq_iff_iff, below_iff_get?]
  constructor
  · intro h
    obtain ⟨w, hw, hbelow⟩ := h x u (by simp [get?_single])
    obtain rfl : v = w := by simpa [get?_single] using hw
    exact hbelow
  · intro h y w hw
    rw [get?_single] at hw ⊢
    split at hw
    · cases hw
      exact ⟨v, if_pos (by assumption), h⟩
    · cases hw

/-- A law holds of stores that bind one variable alone if it holds of what they bind it to. -/
theorem asserts_single_iff (law : Law) (x : String) (a b c : V) :
    law.Asserts (single x a) (single x b) (single x c) ↔ law.Asserts a b c := by
  have hjoin : ∀ u v : V, join (single x u) (single x v) = single x (join u v) :=
    combine_single join x
  have hwiden : ∀ u v : V, widen (single x u) (single x v) = single x (widen u v) :=
    combine_single widen x
  cases law <;> simp only [Law.Asserts, hjoin, hwiden, below_single, single_inj]

/-- The laws of stores are those of their values. -/
theorem lawful_iff [Inspect V] : Lawful (VarStore V) ↔ Lawful V := by
  refine ⟨fun h => lawful_of_asserts fun law a b c => ?_, lawful⟩
  exact (asserts_single_iff law "x" a b c).1 (h.asserts law _ _ _)

end VarStore

/-- The check of the laws passes on all stores of a domain of values exactly if it passes on all
values, and it passes on flat values over any carrier and on nullness, so on the stores of both. -/
theorem lawful_lifts_to_stores {V α : Type} [DecidableEq V] [ValueDomain V] [Inspect V]
    [DecidableEq α] [Inspect α] :
    (Lawful (VarStore V) ↔ Lawful V) ∧ Lawful (Flat α) ∧ Lawful Nullness ∧
      Lawful (VarStore (Flat α)) ∧ Lawful (VarStore (Flat Int64)) ∧
      Lawful (VarStore (Flat String)) ∧ Lawful (VarStore Nullness) :=
  ⟨VarStore.lawful_iff, Flat.lawful, Nullness.lawful, VarStore.lawful Flat.lawful,
    VarStore.lawful Flat.lawful, VarStore.lawful Flat.lawful, VarStore.lawful Nullness.lawful⟩

end Dataflow
