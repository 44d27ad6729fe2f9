import Dataflow.Domain.Flat
import Mathlib.Order.BoundedOrder.Basic
import Mathlib.Order.Lattice

/-!
# The lattice of flat values

The order test decides an order in which `bottom` comes before every value and `top` after every
value, and known values are unrelated (`below_iff`). The join is the least upper bound in it
(`join_below_iff`). The meet is the join with the ends of the order exchanged (`meet_eq_mirror`), so
it is the greatest lower bound in the same order (`below_meet_iff`). All other laws of the two
follow from their bounds (`flat_bounds_and_laws`).
-/

namespace Dataflow

namespace Flat

variable {α : Type}

/-- The value with the ends of the lattice exchanged. -/
def mirror : Flat α → Flat α
  | bottom => top
  | exact x => exact x
  | top => bottom

@[simp] theorem mirror_mirror (a : Flat α) : a.mirror.mirror = a := by
  cases a <;> rfl

variable [DecidableEq α]

theorem join_def (a b : Flat α) : AbstractDomain.join a b = a.join b := rfl

theorem below_def (a b : Flat α) : AbstractDomain.below a b = decide (a.join b = b) := rfl

@[simp] theorem bottom_join (a : Flat α) : bottom.join a = a := by
  cases a <;> rfl

@[simp] theorem join_bottom (a : Flat α) : a.join bottom = a := by
  cases a <;> rfl

@[simp] theorem top_join (a : Flat α) : top.join a = top := by
  cases a <;> rfl

@[simp] theorem join_top (a : Flat α) : a.join top = top := by
  cases a <;> rfl

theorem exact_join_exact (x y : α) :
    (exact x).join (exact y) = if x = y then exact x else top := rfl

/-- The table of the meet is that of the join with the ends exchanged. -/
theorem meet_eq_mirror (a b : Flat α) : a.meet b = (a.mirror.join b.mirror).mirror := by
  cases a with
  | bottom => cases b <;> rfl
  | top => cases b <;> rfl
  | exact x =>
    cases b with
    | bottom => rfl
    | top => rfl
    | exact y =>
      rw [meet, mirror, mirror, exact_join_exact]
      split <;> rfl

/-! ## Order -/

variable {a b c d : Flat α}

theorem below_iff : AbstractDomain.below a b ↔ a = bottom ∨ a = b ∨ b = top := by
  rw [below_def, decide_eq_true_iff]
  cases a with
  | bottom => simp
  | top => cases b <;> simp
  | exact x =>
    cases b with
    | bottom => simp
    | top => simp
    | exact y =>
      rw [exact_join_exact]
      split <;> simp_all

theorem bottom_below (a : Flat α) : AbstractDomain.below bottom a :=
  below_iff.2 (.inl rfl)

theorem below_top (a : Flat α) : AbstractDomain.below a top :=
  below_iff.2 (.inr (.inr rfl))

theorem below_refl (a : Flat α) : AbstractDomain.below a a :=
  below_iff.2 (.inr (.inl rfl))

theorem top_below_iff : AbstractDomain.below top a ↔ a = top := by
  simp [below_iff, eq_comm (a := top)]

theorem exact_below_iff {x : α} : AbstractDomain.below (exact x) a ↔ a = exact x ∨ a = top := by
  simp [below_iff, eq_comm (a := exact x)]

theorem mirror_below_mirror :
    AbstractDomain.below a.mirror b.mirror ↔ AbstractDomain.below b a := by
  rw [below_iff, below_iff]
  cases a <;> cases b <;> simp [mirror, eq_comm]

theorem join_below_iff :
    AbstractDomain.below (a.join b) c ↔ AbstractDomain.below a c ∧ AbstractDomain.below b c := by
  cases a with
  | bottom => simp [bottom_below]
  | top =>
    rw [top_join, top_below_iff, iff_self_and]
    rintro rfl
    exact below_top b
  | exact x =>
    cases b with
    | bottom => simp [bottom_below]
    | top =>
      rw [join_top, top_below_iff, iff_and_self]
      rintro rfl
      exact below_top _
    | exact y =>
      rw [exact_join_exact]
      split
      · subst_vars
        rw [and_self]
      · -- Above two different values there is `top` alone.
        rw [top_below_iff, exact_below_iff, exact_below_iff]
        grind

theorem below_meet_iff :
    AbstractDomain.below c (a.meet b) ↔ AbstractDomain.below c a ∧ AbstractDomain.below c b := by
  rw [meet_eq_mirror, ← mirror_below_mirror, mirror_mirror, join_below_iff, mirror_below_mirror,
    mirror_below_mirror]

instance : PartialOrder (Flat α) where
  le a b := AbstractDomain.below a b
  le_refl := below_refl
  le_trans a b c hab hbc := by
    rw [below_iff] at *
    grind
  le_antisymm a b hab hba := by
    rw [below_iff] at *
    grind

instance : Lattice (Flat α) where
  sup := join
  inf := meet
  le_sup_left a b := (join_below_iff.1 (le_refl (a.join b))).1
  le_sup_right a b := (join_below_iff.1 (le_refl (a.join b))).2
  sup_le _ _ _ hac hbc := join_below_iff.2 ⟨hac, hbc⟩
  inf_le_left a b := (below_meet_iff.1 (le_refl (a.meet b))).1
  inf_le_right a b := (below_meet_iff.1 (le_refl (a.meet b))).2
  le_inf _ _ _ hab hac := below_meet_iff.2 ⟨hab, hac⟩

instance : BoundedOrder (Flat α) where
  bot := bottom
  bot_le := bottom_below
  top := top
  le_top := below_top

/-! ## Laws -/

theorem join_comm (a b : Flat α) : a.join b = b.join a :=
  sup_comm a b

theorem join_assoc (a b c : Flat α) : (a.join b).join c = a.join (b.join c) :=
  sup_assoc a b c

theorem join_self (a : Flat α) : a.join a = a :=
  sup_idem a

theorem meet_join (a b : Flat α) : (a.meet b).join a = a :=
  sup_eq_right.2 (inf_le_left (a := a) (b := b))

theorem meet_mono (hab : AbstractDomain.below a b) (hcd : AbstractDomain.below c d) :
    AbstractDomain.below (a.meet c) (b.meet d) :=
  inf_le_inf (a := b) (b := a) (c := d) (d := c) hab hcd

end Flat

/-- Over any carrier, flat values are partially ordered by the order test, from `bottom` to `top`.
In this order the join of two values is their least upper bound and the meet is their greatest lower
bound. The order can be read off either of them. Both are commutative, associative and idempotent,
either absorbs the other, and the meet is monotone in both arguments. -/
theorem flat_bounds_and_laws {α : Type} [DecidableEq α] (a b c d : Flat α) :
    (below a a ∧ (below a b → below b c → below a c) ∧ (below a b → below b a → a = b)) ∧
    (below .bottom a ∧ below a .top) ∧
    ((below (a.join b) c ↔ below a c ∧ below b c) ∧
      (below c (a.meet b) ↔ below c a ∧ below c b)) ∧
    ((below a b ↔ a.join b = b) ∧ (below a b ↔ a.meet b = a)) ∧
    (a.join b = b.join a ∧ a.meet b = b.meet a) ∧
    ((a.join b).join c = a.join (b.join c) ∧ (a.meet b).meet c = a.meet (b.meet c)) ∧
    (a.join a = a ∧ a.meet a = a) ∧
    (a.join (a.meet b) = a ∧ a.meet (a.join b) = a) ∧
    (below a b → below c d → below (a.meet c) (b.meet d)) :=
  ⟨⟨le_refl a, le_trans (a := a), le_antisymm (a := a)⟩, ⟨bot_le (a := a), le_top (a := a)⟩,
    ⟨Flat.join_below_iff, Flat.below_meet_iff⟩,
    ⟨sup_eq_right (a := a) (b := b).symm, inf_eq_left (a := a) (b := b).symm⟩,
    ⟨sup_comm a b, inf_comm a b⟩, ⟨sup_assoc a b c, inf_assoc a b c⟩, ⟨sup_idem a, inf_idem a⟩,
    ⟨sup_inf_self (a := a) (b := b), inf_sup_self (a := a) (b := b)⟩, Flat.meet_mono⟩

/-- Two different numbers meet in `bottom`, below what one of them meets with `top` in. -/
theorem flat_bounds_and_laws_numbers :
    let a : Flat Int64 := .exact 3
    let b : Flat Int64 := .exact 4
    (below a .top ∧ below b b ∧ a.meet b = .bottom ∧ a.join b = .top) ∧
      below (a.meet b) (Flat.meet .top b) ∧ a.join (a.meet b) = a ∧ a.meet (a.join b) = a := by
  intro a b
  obtain ⟨-, -, -, -, -, -, -, habsorb, -⟩ := flat_bounds_and_laws a b b b
  obtain ⟨-, -, -, -, -, -, -, -, hmono⟩ := flat_bounds_and_laws a .top b b
  have ha : below a .top := by decide
  have hb : below b b := by decide
  exact ⟨⟨ha, hb, by decide, by decide⟩, hmono ha hb, habsorb⟩

end Dataflow
