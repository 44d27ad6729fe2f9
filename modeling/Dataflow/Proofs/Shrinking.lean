import Dataflow.Checker.Constant
import Dataflow.Domain.Shrink
import Dataflow.Proofs.BoundNames
import Dataflow.Proofs.ExactFolding
import Mathlib.Algebra.Order.BigOperators.Group.Finset
import Mathlib.Algebra.Order.Ring.Nat
import Mathlib.Logic.Relation

/-!
# Shrinking ends

Every candidate of a value has a smaller weight (`Shrink.Weight`): the candidates of a number are
nearer to zero (`Shrink.natAbs_lt_of_mem_integers`), and a store differs from each of its candidates
in one variable (`VarStore.shrunkAt_of_mem_shrink`), which has been removed or has lost weight. So no
chain of candidates goes on for ever or comes back, and it can be continued up to the least element
(`shrinking_ends`).
-/

namespace Dataflow

namespace Shrink

/-- A weight of which every candidate has less. -/
structure Weight (α : Type) [Shrink α] where
  weight : α → ℕ
  lt : ∀ {a b}, b ∈ shrink a → weight b < weight a

/-- Shrinking cannot go on for ever or come back to where it was, and there are candidates of
everything but this element. -/
structure EndsAt {α : Type} [Shrink α] (least : α) : Prop where
  finite : ∀ chain : ℕ → α, ∃ n, chain (n + 1) ∉ shrink (chain n)
  acyclic : ∀ a : α, ¬Relation.TransGen (fun a b => b ∈ shrink a) a a
  stops : ∀ a : α, shrink a = [] ↔ a = least

section Weight

variable {α : Type} [Shrink α] (w : Weight α)

include w

theorem Weight.exists_not_mem (chain : ℕ → α) : ∃ n, chain (n + 1) ∉ shrink (chain n) := by
  by_contra hforever
  push Not at hforever
  have hle : ∀ n, w.weight (chain n) + n ≤ w.weight (chain 0) := by
    intro n
    induction n with
    | zero => exact Nat.le_refl _
    | succ n ih =>
      have hlt := w.lt (hforever n)
      omega
  have hlong := hle (w.weight (chain 0) + 1)
  omega

theorem Weight.lt_of_transGen {a b : α} (h : Relation.TransGen (fun a b => b ∈ shrink a) a b) :
    w.weight b < w.weight a := by
  induction h with
  | single hb => exact w.lt hb
  | tail _ hc ih => exact (w.lt hc).trans ih

theorem Weight.endsAt {least : α} (hstops : ∀ a : α, shrink a = [] ↔ a = least) :
    EndsAt least where
  finite := w.exists_not_mem
  acyclic _ h := (w.lt_of_transGen h).false
  stops := hstops

end Weight

/-! ## Numbers -/

theorem dropRepeats_sublist {α : Type} [DecidableEq α] : ∀ l : List α, (dropRepeats l).Sublist l
  | [] => .slnil
  | [_] => .refl _
  | a :: b :: rest => by
    rw [dropRepeats]
    split
    · exact (dropRepeats_sublist (b :: rest)).cons a
    · exact (dropRepeats_sublist (b :: rest)).cons_cons a

theorem natAbs_half_lt {n : Int64} (hn : n ≠ 0) : (n / 2).toInt.natAbs < n.toInt.natAbs := by
  have hpos : 0 < n.toInt.natAbs := Int.natAbs_pos.2 (mt toInt_eq_zero_iff.1 hn)
  rw [Int64.toInt_div_of_ne_right n 2 (by decide), Int.natAbs_tdiv]
  exact Nat.div_lt_self hpos (by decide)

theorem natAbs_sub_one_lt {n : Int64} (hn : 0 < n) : (n - 1).toInt.natAbs < n.toInt.natAbs := by
  have hpos : (0 : Int) < n.toInt := Int64.lt_iff_toInt_lt.1 hn
  have hlt := n.toInt_lt
  have hone : (1 : Int64).toInt = 1 := rfl
  rw [Int64.toInt_sub, hone, Int.bmod_eq_of_le (by omega) (by omega)]
  omega

theorem natAbs_add_one_lt {n : Int64} (hn : n < 0) : (n + 1).toInt.natAbs < n.toInt.natAbs := by
  have hneg : n.toInt < (0 : Int) := Int64.lt_iff_toInt_lt.1 hn
  have hle := n.le_toInt
  have hone : (1 : Int64).toInt = 1 := rfl
  rw [Int64.toInt_add, hone, Int.bmod_eq_of_le (by omega) (by omega)]
  omega

/-- The candidates of a number are nearer to zero. -/
theorem natAbs_lt_of_mem_integers {m n : Int64} (h : m ∈ integers n) :
    m.toInt.natAbs < n.toInt.natAbs := by
  by_cases hzero : n = 0
  · simp [integers, hzero] at h
  · rw [integers, if_neg hzero] at h
    have hmem := (dropRepeats_sublist _).mem h
    simp only [List.mem_cons, List.not_mem_nil, or_false] at hmem
    rcases hmem with rfl | rfl | rfl
    · exact Int.natAbs_pos.2 (mt toInt_eq_zero_iff.1 hzero)
    · exact natAbs_half_lt hzero
    · split_ifs with hpos
      · exact natAbs_sub_one_lt hpos
      · exact natAbs_add_one_lt (Int64.lt_of_le_of_ne (Int64.not_lt.1 hpos) hzero)

example : integers Int64.minValue = [0, -4611686018427387904, -9223372036854775807] := by decide

end Shrink

/-! ## Values -/

def Constant.shrinkWeight : Shrink.Weight Constant where
  weight
    | .bottom => 0
    | .top => 1
    | .exact n => n.toInt.natAbs + 1
  lt {u v} h := by
    cases u with
    | bottom => cases h
    | top =>
      obtain rfl := List.mem_singleton.1 h
      exact Nat.zero_lt_one
    | exact n =>
      rcases List.mem_cons.1 h with rfl | h
      · exact Nat.succ_pos _
      · obtain ⟨m, hm, rfl⟩ := List.mem_map.1 h
        exact Nat.succ_lt_succ (Shrink.natAbs_lt_of_mem_integers hm)

theorem Constant.shrink_eq_nil_iff (v : Constant) : shrink v = [] ↔ v = .bottom := by
  cases v <;> simp [shrink]

def Nullness.shrinkWeight : Shrink.Weight Nullness where
  weight
    | nonNull => 0
    | nullable => 1
  lt {u v} h := by
    cases u with
    | nonNull => cases h
    | nullable =>
      obtain rfl := List.mem_singleton.1 h
      exact Nat.zero_lt_one

theorem Nullness.shrink_eq_nil_iff (v : Nullness) : shrink v = [] ↔ v = .nonNull := by
  cases v <;> simp [shrink]

/-! ## Stores -/

namespace VarStore

variable {V : Type} [Shrink V] {s t : VarStore V}

/-- The stores differ in this variable alone, and the second one has lost it or has a candidate of
its value. -/
structure ShrunkAt (s t : VarStore V) (x : String) : Prop where
  differs : ∀ y, t.get? y ≠ s.get? y ↔ y = x
  change : ∃ v, s.get? x = some v ∧ (t.get? x = none ∨ ∃ u ∈ shrink v, t.get? x = some u)

theorem mem_shrink_iff : t ∈ shrink s ↔
    ∃ x v, s.get? x = some v ∧ (t = s.erase x ∨ ∃ u ∈ shrink v, t = s.set x u) := by
  have hbound : ∀ {x v}, (x, v) ∈ s.bindings ↔ s.get? x = some v :=
    Bindings.mem_iff_lookup_eq_some s.ascending
  constructor
  · intro h
    rcases List.mem_append.1 h with h | h
    · obtain ⟨x, hx, rfl⟩ := List.mem_map.1 h
      obtain ⟨v, hv⟩ := Option.isSome_iff_exists.1 (mem_names_iff.1 hx)
      exact ⟨x, v, hv, .inl rfl⟩
    · obtain ⟨⟨x, v⟩, hx, h⟩ := List.mem_flatMap.1 h
      obtain ⟨u, hu, rfl⟩ := List.mem_map.1 h
      exact ⟨x, v, hbound.1 hx, .inr ⟨u, hu, rfl⟩⟩
  · rintro ⟨x, v, hv, rfl | ⟨u, hu, rfl⟩⟩
    · exact List.mem_append_left _ (List.mem_map.2 ⟨x, mem_names_iff.2 (by simp [hv]), rfl⟩)
    · refine List.mem_append_right _ (List.mem_flatMap.2 ⟨(x, v), hbound.2 hv, ?_⟩)
      exact List.mem_map.2 ⟨u, hu, rfl⟩

theorem shrink_eq_nil_iff : shrink s = [] ↔ s = empty := by
  constructor
  · intro h
    obtain ⟨hnames, -⟩ := List.append_eq_nil_iff.1 h
    have hbindings : s.bindings = [] := List.map_eq_nil_iff.1 (List.map_eq_nil_iff.1 hnames)
    refine ext_get? fun x => ?_
    rw [get?, hbindings, get?_empty]
    rfl
  · rintro rfl
    rfl

/-- A store differs from each of its candidates in one variable. -/
theorem shrunkAt_of_mem_shrink (w : Shrink.Weight V) (h : t ∈ shrink s) : ∃ x, ShrunkAt s t x := by
  obtain ⟨x, v, hv, rfl | ⟨u, hu, rfl⟩⟩ := mem_shrink_iff.1 h
  · refine ⟨x, fun y => ?_, v, hv, .inl ?_⟩
    · rw [get?_erase]
      by_cases hy : y = x <;> simp [hy, hv]
    · rw [get?_erase, if_pos rfl]
  · -- A candidate of the value is another value.
    have hne : u ≠ v := by
      rintro rfl
      exact (w.lt hu).false
    refine ⟨x, fun y => ?_, v, hv, .inr ⟨u, hu, ?_⟩⟩
    · rw [get?_set]
      by_cases hy : y = x <;> simp [hy, hv, hne]
    · rw [get?_set, if_pos rfl]

theorem ShrunkAt.mem_names {x y : String} (h : ShrunkAt s t x) (hy : y ∈ t.names) :
    y ∈ s.names := by
  rw [mem_names_iff] at hy ⊢
  by_cases hxy : y = x
  · obtain ⟨v, hv, -⟩ := h.change
    rw [hxy, hv]
    rfl
  · have hsame : t.get? y = s.get? y := not_not.1 (mt (h.differs y).1 hxy)
    rwa [← hsame]

/-- One for every variable, and the weight of its value. -/
def shrinkWeight (w : Shrink.Weight V) : Shrink.Weight (VarStore V) where
  weight s := ∑ x ∈ s.names.toFinset, (s.get? x).elim 0 (w.weight · + 1)
  lt {s t} h := by
    obtain ⟨x, hx⟩ := shrunkAt_of_mem_shrink w h
    obtain ⟨v, hv, hchange⟩ := hx.change
    have hnames : t.names.toFinset ⊆ s.names.toFinset := by
      intro y hy
      exact List.mem_toFinset.2 (hx.mem_names (List.mem_toFinset.1 hy))
    have hmem : x ∈ s.names.toFinset := List.mem_toFinset.2 (mem_names_iff.2 (by simp [hv]))
    have hlt : (t.get? x).elim 0 (w.weight · + 1) < (s.get? x).elim 0 (w.weight · + 1) := by
      rw [hv]
      rcases hchange with hnone | ⟨u, hu, hsome⟩
      · rw [hnone]
        exact Nat.succ_pos _
      · rw [hsome]
        exact Nat.succ_lt_succ (w.lt hu)
    calc ∑ y ∈ t.names.toFinset, (t.get? y).elim 0 (w.weight · + 1)
        ≤ ∑ y ∈ s.names.toFinset, (t.get? y).elim 0 (w.weight · + 1) :=
          Finset.sum_le_sum_of_subset hnames
      _ < ∑ y ∈ s.names.toFinset, (s.get? y).elim 0 (w.weight · + 1) := by
        refine Finset.sum_lt_sum (fun y _ => ?_) ⟨x, hmem, hlt⟩
        by_cases hy : y = x
        · rw [hy]
          exact hlt.le
        · rw [not_not.1 (mt (hx.differs y).1 hy)]

end VarStore

/-- Shrinking ends, and only at `bottom`, at `nonNull` and at the empty store. Every candidate of a
store differs from it in one variable, which it has lost or has a candidate of the value for; it
binds no other names than the store. -/
theorem shrinking_ends :
    Shrink.EndsAt (.bottom : Constant) ∧ Shrink.EndsAt Nullness.nonNull ∧
      Shrink.EndsAt (.empty : VarStore Constant) ∧ Shrink.EndsAt (.empty : VarStore Nullness) ∧
      (∀ s t : VarStore Constant, t ∈ shrink s →
        (∀ x ∈ t.names, x ∈ s.names) ∧ ∃ x, s.ShrunkAt t x) ∧
      ∀ s t : VarStore Nullness, t ∈ shrink s →
        (∀ x ∈ t.names, x ∈ s.names) ∧ ∃ x, s.ShrunkAt t x := by
  have hstore : ∀ {V : Type} [Shrink V] (_ : Shrink.Weight V) (s t : VarStore V), t ∈ shrink s →
      (∀ x ∈ t.names, x ∈ s.names) ∧ ∃ x, s.ShrunkAt t x := by
    intro V _ w s t h
    obtain ⟨x, hx⟩ := VarStore.shrunkAt_of_mem_shrink w h
    exact ⟨fun _ => hx.mem_names, x, hx⟩
  exact ⟨Constant.shrinkWeight.endsAt Constant.shrink_eq_nil_iff,
    Nullness.shrinkWeight.endsAt Nullness.shrink_eq_nil_iff,
    (VarStore.shrinkWeight Constant.shrinkWeight).endsAt fun _ => VarStore.shrink_eq_nil_iff,
    (VarStore.shrinkWeight Nullness.shrinkWeight).endsAt fun _ => VarStore.shrink_eq_nil_iff,
    hstore Constant.shrinkWeight, hstore Nullness.shrinkWeight⟩

def leastNumber : VarStore Constant :=
  .single "x" (.exact Int64.minValue)

def leastNumberHalved : VarStore Constant :=
  .single "x" (.exact (-4611686018427387904))

/-- The least number has no absolute value of 64 bits, but halving it does not come back to it. -/
theorem shrinking_ends_leastNumber :
    leastNumberHalved ∈ shrink leastNumber ∧ (∃ x, leastNumber.ShrunkAt leastNumberHalved x) ∧
      ¬Relation.TransGen (fun s t => t ∈ shrink s) leastNumber leastNumber := by
  obtain ⟨-, -, hends, -, hcandidates, -⟩ := shrinking_ends
  have hmem : leastNumberHalved ∈ shrink leastNumber := by decide
  exact ⟨hmem, (hcandidates _ _ hmem).2, hends.acyclic leastNumber⟩

end Dataflow
