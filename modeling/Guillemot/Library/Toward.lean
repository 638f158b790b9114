import Mathlib.Algebra.Order.Group.Abs
import Mathlib.Algebra.Order.Group.MinMax
import Mathlib.Order.Interval.Set.UnorderedInterval
import Mathlib.Tactic.Abel

/-!
# Moving towards a target

`toward d x t` is `x` moved towards `t` by the distance `d`, or to `t` when that is nearer. Moves in
a row add up (`toward_toward`), so that a ramp of equal steps is one move of the whole distance. It
never leaves the interval between start and target, it only goes forward, and it has arrived when
the distance is covered (`toward_eq_target_iff`).
-/

namespace Guillemot

variable {α : Type*} [AddCommGroup α] [LinearOrder α]

/-- `x`, moved towards `t` by the distance `d`, but not past it. -/
def toward (d x t : α) : α := if x ≤ t then min (x + d) t else max (x - d) t

theorem toward_of_le {d x t : α} (h : x ≤ t) : toward d x t = min (x + d) t := if_pos h

variable [IsOrderedAddMonoid α]

theorem toward_of_ge {d x t : α} (hd : 0 ≤ d) (h : t ≤ x) : toward d x t = max (x - d) t := by
  unfold toward
  split_ifs with hle
  · obtain rfl := le_antisymm hle h
    rw [min_eq_right (le_add_of_nonneg_right hd), max_eq_right (sub_le_self x hd)]
  · rfl

/-- No distance, no move. -/
theorem toward_zero (x t : α) : toward 0 x t = x := by
  rcases le_total x t with h | h
  · rw [toward_of_le h, add_zero, min_eq_left h]
  · rw [toward_of_ge le_rfl h, sub_zero, max_eq_left h]

/-- The move stays between start and target. -/
theorem toward_mem_uIcc {d : α} (hd : 0 ≤ d) (x t : α) : toward d x t ∈ Set.uIcc x t := by
  rcases le_total x t with h | h
  · rw [toward_of_le h, Set.uIcc_of_le h]
    exact ⟨le_min (le_add_of_nonneg_right hd) h, min_le_right _ _⟩
  · rw [toward_of_ge hd h, Set.uIcc_of_ge h]
    exact ⟨le_max_right _ _, max_le (sub_le_self x hd) h⟩

/-- Moves in a row add up. -/
theorem toward_toward {a b : α} (ha : 0 ≤ a) (hb : 0 ≤ b) (x t : α) :
    toward b (toward a x t) t = toward (a + b) x t := by
  rcases le_total x t with h | h
  · rw [toward_of_le h, toward_of_le (min_le_right _ _), toward_of_le h, min_add, ← add_assoc,
      min_assoc, min_eq_right (le_add_of_nonneg_right hb : t ≤ t + b)]
  · rw [toward_of_ge ha h, toward_of_ge hb (le_max_right _ _), toward_of_ge (add_nonneg ha hb) h,
      ← max_sub_sub_right, sub_sub, max_assoc, max_eq_right (sub_le_self t hb)]

/-- The target is reached when the distance is covered. -/
theorem toward_eq_target_iff {d : α} (hd : 0 ≤ d) (x t : α) :
    toward d x t = t ↔ |t - x| ≤ d := by
  rcases le_total x t with h | h
  · rw [toward_of_le h, min_eq_right_iff, abs_of_nonneg (sub_nonneg.mpr h), sub_le_iff_le_add']
  · rw [toward_of_ge hd h, max_eq_right_iff, abs_sub_comm, abs_of_nonneg (sub_nonneg.mpr h),
      sub_le_comm]

/-- A longer move passes through a shorter one. -/
theorem toward_mem_uIcc_of_le {a b : α} (ha : 0 ≤ a) (hab : a ≤ b) (x t : α) :
    toward a x t ∈ Set.uIcc x (toward b x t) := by
  rcases le_total x t with h | h
  · rw [toward_of_le h, toward_of_le h]
    have hb : x ≤ min (x + b) t := le_min (le_add_of_nonneg_right (ha.trans hab)) h
    rw [Set.uIcc_of_le hb]
    exact ⟨le_min (le_add_of_nonneg_right ha) h, min_le_min (add_le_add_right hab x) le_rfl⟩
  · rw [toward_of_ge ha h, toward_of_ge (ha.trans hab) h]
    have hb : max (x - b) t ≤ x := max_le (sub_le_self x (ha.trans hab)) h
    rw [Set.uIcc_of_ge hb]
    exact ⟨max_le_max (sub_le_sub_left hab x) le_rfl, max_le (sub_le_self x ha) h⟩

end Guillemot
