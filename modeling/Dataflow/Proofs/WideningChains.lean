import Dataflow.Proofs.BoundNames
import Dataflow.Proofs.LawfulStores
import Mathlib.Algebra.Order.BigOperators.Group.Finset
import Mathlib.Algebra.Order.Ring.Nat
import Mathlib.Data.Set.Card
import Mathlib.Data.Set.Finite.Lattice

/-!
# Chains of widenings

A store of flat values that is widened again and again settles, whatever it is widened by. A
variable that it does not bind yet takes the value that comes in, and the next change of a value is
to `top`, for good. A change therefore moves some variable up a ranking of two steps
(`VarStore.stage_lt_of_widen_ne`), so that twice the number of the names that come in bounds the
changes (`widening_settles`), although the values may be infinitely many.
-/

namespace Dataflow

/-! ## Sequences that a bounded rank ascends with -/

section Sequence

variable {S : Type} {s : ℕ → S}

/-- If a rank ascends wherever the sequence changes, its bound is a bound on the changes. -/
theorem encard_changes_le (rank : S → ℕ)
    (hrank : ∀ i, s (i + 1) ≠ s i → rank (s i) < rank (s (i + 1))) {bound : ℕ}
    (hbound : ∀ i, rank (s i) ≤ bound) : {i | s (i + 1) ≠ s i}.encard ≤ bound := by
  have hmono : Monotone fun i => rank (s i) := by
    refine monotone_nat_of_le_succ fun i => ?_
    by_cases hi : s (i + 1) = s i
    · rw [hi]
    · exact (hrank i hi).le
  have hmaps : Set.MapsTo (fun i => rank (s i)) {i | s (i + 1) ≠ s i}
      (Finset.range bound : Set ℕ) := by
    intro i hi
    exact Finset.mem_coe.2 (Finset.mem_range.2 ((hrank i hi).trans_le (hbound (i + 1))))
  have hinj : Set.InjOn (fun i => rank (s i)) {i | s (i + 1) ≠ s i} := by
    -- Between two changes the rank has risen by the first of them.
    have hlt : ∀ i j, s (i + 1) ≠ s i → i < j → rank (s i) < rank (s j) :=
      fun i j hi hij => (hrank i hi).trans_le (hmono hij)
    intro i hi j hj heq
    rcases lt_trichotomy i j with hij | hij | hij
    · exact absurd heq (hlt i j hi hij).ne
    · exact hij
    · exact absurd heq (hlt j i hj hij).ne'
  calc {i | s (i + 1) ≠ s i}.encard
      ≤ (Finset.range bound : Set ℕ).encard := Set.encard_le_encard_of_injOn hmaps hinj
    _ = bound := by rw [Set.encard_coe_eq_coe_finsetCard, Finset.card_range]

/-- A sequence with finitely many changes is constant from some point on. -/
theorem exists_forall_ge_eq (hfinite : {i | s (i + 1) ≠ s i}.Finite) :
    ∃ n, ∀ i ≥ n, s i = s n := by
  obtain ⟨last, hlast⟩ := hfinite.bddAbove
  refine ⟨last + 1, fun i hi => ?_⟩
  induction i, hi using Nat.le_induction with
  | base => rfl
  | succ i hi ih =>
    have hsame : s (i + 1) = s i := by
      by_contra hne
      have hle : i ≤ last := hlast hne
      omega
    rw [hsame, ih]

end Sequence

/-! ## The ranking -/

section Stages

variable {α : Type}

/-- How far a variable has come: it is not bound, or it is bound, or it is at `top`. -/
def Flat.stage : Option (Flat α) → ℕ
  | none => 0
  | some top => 2
  | some _ => 1

theorem Flat.stage_le (v : Option (Flat α)) : stage v ≤ 2 := by
  rcases v with _ | _ | _ | _ <;> simp [stage]

/-- How far all of these variables have come together. -/
def VarStore.stages (s : VarStore (Flat α)) (K : Finset String) : ℕ :=
  ∑ y ∈ K, Flat.stage (s.get? y)

theorem VarStore.stages_le (s : VarStore (Flat α)) (K : Finset String) :
    s.stages K ≤ 2 * K.card := by
  calc s.stages K ≤ K.card • 2 := Finset.sum_le_card_nsmul K _ 2 fun y _ => Flat.stage_le _
    _ = 2 * K.card := by rw [Nat.nsmul_eq_mul, Nat.mul_comm]

variable [DecidableEq α]

theorem Flat.widen_eq_or_eq_top (u v : Flat α) :
    AbstractDomain.widen u v = u ∨ AbstractDomain.widen u v = top := by
  rw [widen_def]
  split
  · exact .inl rfl
  · exact .inr rfl

namespace VarStore

theorem get?_widen {V : Type} [DecidableEq V] [ValueDomain V] (s t : VarStore V) (y : String) :
    (widen s t).get? y =
      match s.get? y, t.get? y with
      | some u, some v => some (widen u v)
      | some u, none => some u
      | none, v => v :=
  get?_combine widen s t y

variable {s t : VarStore (Flat α)} {y : String}

/-- Widening moves a variable on, or leaves it as it is. -/
theorem stage_lt_of_widen_ne (h : (widen s t).get? y ≠ s.get? y) :
    Flat.stage (s.get? y) < Flat.stage ((widen s t).get? y) := by
  rw [get?_widen] at h ⊢
  rcases hs : s.get? y with _ | u <;> rcases ht : t.get? y with _ | v <;>
    simp only [hs, ht, ne_eq, not_true_eq_false, Option.some.injEq] at h ⊢
  · cases v <;> simp [Flat.stage]
  · have htop := (Flat.widen_eq_or_eq_top u v).resolve_left h
    rw [htop] at h ⊢
    cases u with
    | bottom | exact => simp [Flat.stage]
    | top => exact absurd rfl h

/-- Only a name that comes in can change. -/
theorem mem_names_of_widen_ne (h : (widen s t).get? y ≠ s.get? y) : y ∈ t.names := by
  rw [mem_names_iff, Option.isSome_iff_ne_none]
  intro hnone
  rw [get?_widen, hnone] at h
  cases hs : s.get? y <;> simp [hs] at h

theorem stages_lt_of_widen_ne {K : Finset String} (ht : ∀ y ∈ t.names, y ∈ K)
    (h : widen s t ≠ s) : s.stages K < (widen s t).stages K := by
  have hchanged : ∃ y, (widen s t).get? y ≠ s.get? y := by
    by_contra hsame
    push Not at hsame
    exact h (ext_get? hsame)
  obtain ⟨y, hy⟩ := hchanged
  refine Finset.sum_lt_sum (fun z _ => ?_) ⟨y, ht y (mem_names_of_widen_ne hy), ?_⟩
  · by_cases hz : (widen s t).get? z = s.get? z
    · rw [hz]
    · exact (stage_lt_of_widen_ne hz).le
  · exact stage_lt_of_widen_ne hy

end VarStore

end Stages

/-! ## Stores that are widened again and again -/

/-- However a store of flat values is widened by stores over finitely many names, it changes at most
twice for each of them and then no more. It ascends, and is above all that it is widened by. -/
theorem widening_settles {α : Type} [DecidableEq α] [Inspect α] {s x : ℕ → VarStore (Flat α)}
    (hs : ∀ i, s (i + 1) = widen (s i) (x (i + 1))) {K : Finset String}
    (hx : ∀ i, ∀ y ∈ (x (i + 1)).names, y ∈ K) :
    {i | s (i + 1) ≠ s i}.encard ≤ (2 * K.card : ℕ) ∧
      (∃ n, ∀ i ≥ n, s i = s n) ∧
      (∀ i j, i ≤ j → below (s i) (s j)) ∧
      ∀ i, below (x (i + 1)) (s (i + 1)) := by
  have hlawful : Lawful (VarStore (Flat α)) := VarStore.lawful Flat.lawful
  have hcount : {i | s (i + 1) ≠ s i}.encard ≤ (2 * K.card : ℕ) := by
    refine encard_changes_le (fun s => s.stages K) (fun i hi => ?_) fun i => (s i).stages_le K
    rw [hs] at hi ⊢
    exact VarStore.stages_lt_of_widen_ne (hx i) hi
  refine ⟨hcount, exists_forall_ge_eq (Set.finite_of_encard_le_coe hcount), fun i j hij => ?_,
    fun i => ?_⟩
  · induction j, hij using Nat.le_induction with
    | base => exact hlawful.below_refl (s i)
    | succ j _ ih =>
      refine hlawful.below_trans ih ?_
      rw [hs]
      exact hlawful.below_widen_left (s j) (x (j + 1))
  · rw [hs]
    exact hlawful.below_widen_right (s i) (x (i + 1))

/-- One variable, with a greater number each time. -/
def countingStores (i : ℕ) : VarStore (Flat ℕ) :=
  .single "n" (.exact i)

/-- What the empty store becomes if it is widened by them. -/
def settledAtTop : ℕ → VarStore (Flat ℕ)
  | 0 => .empty
  | 1 => .single "n" (.exact 1)
  | _ + 2 => .single "n" .top

theorem settledAtTop_succ (i : ℕ) :
    settledAtTop (i + 1) = widen (settledAtTop i) (countingStores (i + 1)) := by
  match i with
  | 0 => decide
  | 1 => decide
  | i + 2 => exact (VarStore.combine_single Flat.widen "n" .top (.exact (i + 3))).symm

/-- The bound is attained: one variable that is counted up changes twice. -/
theorem widening_settles_counting :
    (∀ i, settledAtTop (i + 1) = widen (settledAtTop i) (countingStores (i + 1))) ∧
      (∀ i, ∀ y ∈ (countingStores (i + 1)).names, y ∈ ({"n"} : Finset String)) ∧
      settledAtTop 1 ≠ settledAtTop 0 ∧ settledAtTop 2 ≠ settledAtTop 1 ∧
      {i | settledAtTop (i + 1) ≠ settledAtTop i}.encard ≤ 2 ∧
      (∃ n, ∀ i ≥ n, settledAtTop i = settledAtTop n) ∧
      (∀ i j, i ≤ j → below (settledAtTop i) (settledAtTop j)) ∧
      ∀ i, below (countingStores (i + 1)) (settledAtTop (i + 1)) := by
  have hnames : ∀ i, ∀ y ∈ (countingStores (i + 1)).names, y ∈ ({"n"} : Finset String) := by
    intro i y hy
    exact Finset.mem_singleton.2 (List.mem_singleton.1 hy)
  exact ⟨settledAtTop_succ, hnames, by decide, by decide,
    widening_settles settledAtTop_succ hnames⟩

end Dataflow
