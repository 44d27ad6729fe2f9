import Dataflow.Domain.Widening
import Dataflow.Proofs.BoundNames
import Mathlib.Algebra.Order.BigOperators.Group.List
import Mathlib.Algebra.Order.Ring.Nat

/-!
# Stores over a frame

The stores of an analysis of variables bind the variables of the graph, and whatever else they bind
is as in the initial store (`Frames`). Setting a variable and merging keep that. A relation between
the values of several such stores goes variable by variable (`Pointwise`). Where merging changes a
value it moves it up a ranking of finite height (`Ranking`), and a store up the sum of the ranks of
its variables (`Ranking.storeRank_lt`).
-/

namespace Dataflow

/-- Merging moves a value up a ranking, or leaves it as it is. -/
structure Ranking (V : Type) [DecidableEq V] [AbstractDomain V] (height : Nat) where
  rank : V → Nat
  rank_le : ∀ v, rank v ≤ height
  join_self : ∀ v : V, join v v = v
  widen_self : ∀ v : V, widen v v = v
  rank_lt_join : ∀ {u v : V}, join u v ≠ u → rank u < rank (join u v)
  rank_lt_widen : ∀ {u v : V}, widen u v ≠ u → rank u < rank (widen u v)

namespace Ranking

variable {V : Type} [DecidableEq V] [AbstractDomain V] {height : Nat} (r : Ranking V height)
  (w : Widening) (updates : Nat)

include r in
theorem merge_self (v : V) : w.merge v v updates = v := by
  unfold Widening.merge
  split
  · exact r.widen_self v
  · exact r.join_self v

theorem rank_lt_merge {u v : V} (h : w.merge u v updates ≠ u) :
    r.rank u < r.rank (w.merge u v updates) := by
  unfold Widening.merge at h ⊢
  split_ifs at h ⊢
  · exact r.rank_lt_widen h
  · exact r.rank_lt_join h

end Ranking

namespace VarStore

variable {V : Type} {vars : List String} {base : VarStore V}

/-- The store binds the variables, and every other name as the base does. -/
structure Frames (s : VarStore V) (vars : List String) (base : VarStore V) : Prop where
  bound : ∀ x ∈ vars, (s.get? x).isSome
  other : ∀ x, x ∉ vars → s.get? x = base.get? x

theorem merge_eq_combine [DecidableEq V] [ValueDomain V] (w : Widening) (s t : VarStore V)
    (updates : Nat) : w.merge s t updates = combine (w.merge · · updates) s t := by
  unfold Widening.merge
  cases w.widensAfter updates <;> rfl

namespace Frames

variable {s t : VarStore V}

theorem set (h : s.Frames vars base) {x : String} (hx : x ∈ vars) (v : V) :
    (s.set x v).Frames vars base where
  bound := fun y hy => by
    rw [get?_set]
    split
    · rfl
    · exact h.bound y hy
  other := fun y hy => by
    rw [get?_set, if_neg (ne_of_mem_of_not_mem hx hy).symm]
    exact h.other y hy

theorem exists_get? (hs : s.Frames vars base) {x : String} (hx : x ∈ vars) :
    ∃ u, s.get? x = some u :=
  Option.isSome_iff_exists.1 (hs.bound x hx)

theorem get?_combine (hs : s.Frames vars base) (ht : t.Frames vars base) (f : V → V → V)
    {x : String} (hx : x ∈ vars) :
    ∃ u v, s.get? x = some u ∧ t.get? x = some v ∧ (combine f s t).get? x = some (f u v) := by
  obtain ⟨u, hu⟩ := hs.exists_get? hx
  obtain ⟨v, hv⟩ := ht.exists_get? hx
  exact ⟨u, v, hu, hv, by rw [VarStore.get?_combine, hu, hv]⟩

theorem combine (hs : s.Frames vars base) (ht : t.Frames vars base) {f : V → V → V}
    (hf : ∀ v, f v v = v) : (combine f s t).Frames vars base where
  bound := fun x hx => by
    obtain ⟨u, v, -, -, heq⟩ := hs.get?_combine ht f hx
    rw [heq]
    rfl
  other := fun x hx => by
    rw [VarStore.get?_combine, hs.other x hx, ht.other x hx]
    cases base.get? x with
    | none => rfl
    | some u => exact congrArg some (hf u)

/-- Stores over one frame are equal if they agree on the variables. -/
theorem ext (hs : s.Frames vars base) (ht : t.Frames vars base)
    (h : ∀ x ∈ vars, s.get? x = t.get? x) : s = t := by
  refine ext_get? fun x => ?_
  by_cases hx : x ∈ vars
  · exact h x hx
  · rw [hs.other x hx, ht.other x hx]

theorem mem_names_iff (h : s.Frames vars base) {x : String} :
    x ∈ s.names ↔ x ∈ vars ∨ x ∈ base.names := by
  rw [VarStore.mem_names_iff, VarStore.mem_names_iff]
  by_cases hx : x ∈ vars
  · simp [hx, h.bound x hx]
  · simp [hx, h.other x hx]

end Frames

/-! ## Several stores -/

section Pointwise

variable {ι : Type}

/-- The stores are over one frame, and their values of every variable are in the relation. -/
structure Pointwise (vars : List String) (base : VarStore V) (Q : (ι → V) → Prop)
    (stores : ι → VarStore V) : Prop where
  frames : ∀ i, (stores i).Frames vars base
  values : ∀ x ∈ vars, ∀ {u : ι → V}, (∀ i, (stores i).get? x = some (u i)) → Q u

namespace Pointwise

variable {Q : (ι → V) → Prop} {stores stores' : ι → VarStore V}
  (h : Pointwise vars base Q stores)

include h

theorem getD {x : String} (hx : x ∈ vars) (v : V) : Q fun i => ((stores i).get? x).getD v := by
  refine h.values x hx fun i => ?_
  obtain ⟨u, hu⟩ := (h.frames i).exists_get? hx
  rw [hu]
  rfl

theorem set {x : String} (hx : x ∈ vars) {v : ι → V} (hv : Q v) :
    Pointwise vars base Q fun i => (stores i).set x (v i) where
  frames := fun i => (h.frames i).set hx _
  values := fun y hy u hu => by
    simp only [get?_set] at hu
    split at hu
    · rwa [show u = v from funext fun i => (Option.some.inj (hu i)).symm]
    · exact h.values y hy hu

theorem combine (h' : Pointwise vars base Q stores') {f : V → V → V} (hf : ∀ v, f v v = v)
    (hQ : ∀ {u v : ι → V}, Q u → Q v → Q fun i => f (u i) (v i)) :
    Pointwise vars base Q fun i => VarStore.combine f (stores i) (stores' i) where
  frames := fun i => (h.frames i).combine (h'.frames i) hf
  values := fun x hx u hu => by
    choose v v' hv hv' hmerged using fun i => (h.frames i).get?_combine (h'.frames i) f hx
    rw [show u = fun i => f (v i) (v' i) from
      funext fun i => Option.some.inj ((hu i).symm.trans (hmerged i))]
    exact hQ (h.values x hx hv) (h'.values x hx hv')

end Pointwise

end Pointwise

/-! ## Two stores -/

section Rising

variable [DecidableEq V] [ValueDomain V] {s t : VarStore V}

/-- The first of two values is below the second. -/
def Rising (u : Bool → V) : Prop :=
  below (u false) (u true)

theorem Pointwise.below_of_rising {stores : Bool → VarStore V}
    (h : Pointwise vars base Rising stores) (hrefl : ∀ v : V, below v v) :
    below (stores false) (stores true) := by
  refine below_iff_get?.2 fun x u hu => ?_
  by_cases hx : x ∈ vars
  · obtain ⟨v, hv⟩ := (h.frames true).exists_get? hx
    have hrising : Rising fun i => bif i then v else u :=
      h.values x hx (by rintro (_ | _) <;> assumption)
    exact ⟨v, hv, hrising⟩
  · refine ⟨u, ?_, hrefl u⟩
    rwa [(h.frames true).other x hx, ← (h.frames false).other x hx]

theorem pointwise_rising_of_below (hs : s.Frames vars base) (ht : t.Frames vars base)
    (h : below s t) : Pointwise vars base Rising fun i => bif i then t else s where
  frames := by rintro (_ | _) <;> assumption
  values := fun x _ u hu => by
    obtain ⟨v, hv, hbelow⟩ := below_iff_get?.1 h x _ (hu false)
    rwa [Rising, Option.some.inj ((hu true).symm.trans hv)]

end Rising

end VarStore

/-! ## Ranks of stores -/

namespace Ranking

variable {V : Type} [DecidableEq V] [AbstractDomain V] {height : Nat} (r : Ranking V height)
  (vars : List String) {base s t : VarStore V}

def storeRank (s : VarStore V) : Nat :=
  (vars.map fun x => (s.get? x).elim 0 r.rank).sum

theorem storeRank_le (s : VarStore V) : r.storeRank vars s ≤ vars.length * height := by
  have hle : ∀ n ∈ vars.map fun x => (s.get? x).elim 0 r.rank, n ≤ height := by
    intro n hn
    obtain ⟨x, -, rfl⟩ := List.mem_map.1 hn
    cases s.get? x with
    | none => exact Nat.zero_le _
    | some v => exact r.rank_le v
  simpa [storeRank] using List.sum_le_card_nsmul _ _ hle

variable {vars}

/-- A store that merging changes has changed at some variable, and at none for the worse. -/
theorem storeRank_lt (hs : s.Frames vars base) (ht : t.Frames vars base) (w : Widening)
    (updates : Nat) (hne : VarStore.combine (w.merge · · updates) s t ≠ s) :
    r.storeRank vars s < r.storeRank vars (VarStore.combine (w.merge · · updates) s t) := by
  have hrank : ∀ x ∈ vars, (VarStore.combine (w.merge · · updates) s t).get? x = s.get? x ∨
      (s.get? x).elim 0 r.rank <
        ((VarStore.combine (w.merge · · updates) s t).get? x).elim 0 r.rank := by
    intro x hx
    obtain ⟨u, v, hu, -, hmerged⟩ := hs.get?_combine ht (w.merge · · updates) hx
    rw [hmerged, hu]
    by_cases hsame : w.merge u v updates = u
    · exact .inl (congrArg some hsame)
    · exact .inr (r.rank_lt_merge w updates hsame)
  refine List.sum_lt_sum _ _ (fun x hx => ?_) ?_
  · rcases hrank x hx with heq | hlt
    · rw [heq]
    · exact hlt.le
  · by_contra hnone
    refine hne ((hs.combine ht (r.merge_self w updates)).ext hs fun x hx => ?_)
    exact (hrank x hx).resolve_right fun hlt => hnone ⟨x, hx, hlt⟩

end Ranking

/-! ## The rankings of flat values and of nullness -/

def Flat.ranking {α : Type} [DecidableEq α] : Ranking (Flat α) 2 where
  rank
    | bottom => 0
    | exact _ => 1
    | top => 2
  rank_le v := by cases v <;> simp
  join_self := join_self
  widen_self v := by rw [widen_def, join_self, if_pos rfl]
  rank_lt_join {u v} h := by
    rw [join_def] at h ⊢
    cases u <;> cases v <;> grind [Flat.join]
  rank_lt_widen {u v} h := by
    rw [widen_def] at h ⊢
    cases u <;> cases v <;> grind [Flat.join]

def Nullness.ranking : Ranking Nullness 1 where
  rank
    | nonNull => 0
    | nullable => 1
  rank_le v := by cases v <;> decide
  join_self v := by cases v <;> rfl
  widen_self v := by cases v <;> rfl
  rank_lt_join {u v} h := by cases u <;> cases v <;> first | exact absurd rfl h | decide
  rank_lt_widen {u v} h := by cases u <;> cases v <;> first | exact absurd rfl h | decide

end Dataflow
