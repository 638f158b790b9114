import Mathlib.Algebra.Order.Floor.Ring
import Mathlib.Tactic.Linarith
import Mathlib.Tactic.Ring

/-!
# Truncation and the remainder with the sign of the dividend

`truncate` is the conversion of a number to an integer, towards zero, and `fmod` the remainder that
belongs to it. `fmod_eq_iff` says of which numbers another one is the remainder.
-/

namespace Guillemot

variable {K : Type*} [Field K] [LinearOrder K] [FloorRing K]

/-- The integer next to a number on the way to zero. -/
def truncate (x : K) : ℤ := if 0 ≤ x then ⌊x⌋ else ⌈x⌉

/-- The remainder of a division whose quotient is truncated. -/
def fmod (x m : K) : K := x - m * truncate (x / m)

variable [IsStrictOrderedRing K]

theorem truncate_neg (x : K) : truncate (-x) = -truncate x := by
  unfold truncate
  rcases lt_trichotomy x 0 with hx | rfl | hx
  · rw [if_pos (by linarith), if_neg (by linarith), Int.floor_neg]
  · simp
  · rw [if_neg (by linarith), if_pos hx.le, Int.ceil_neg]

/-- Truncation does not lead away from zero. -/
theorem abs_truncate_le (x : K) : |(truncate x : K)| ≤ |x| := by
  unfold truncate
  split_ifs with hx
  · have hfloor : (0 : K) ≤ ⌊x⌋ := Int.cast_nonneg (Int.floor_nonneg.mpr hx)
    rw [abs_of_nonneg hfloor, abs_of_nonneg hx]
    exact Int.floor_le x
  · have hneg : x ≤ 0 := (not_le.mp hx).le
    have hceil : (⌈x⌉ : K) ≤ 0 := Int.cast_nonpos.mpr (Int.ceil_le.mpr (by simpa using hneg))
    rw [abs_of_nonpos hceil, abs_of_nonpos hneg]
    exact neg_le_neg (Int.le_ceil x)

/-- Only zero is the part of itself that is truncated. -/
theorem truncate_mul_eq_iff {n : ℤ} {m : K} (hm : 0 ≤ m) (hm' : m < 1) :
    truncate (n * m) = n ↔ n = 0 := by
  constructor
  · intro h
    have hle : |(n : K)| ≤ |(n : K)| * m := by
      calc |(n : K)| = |(truncate (n * m) : K)| := by rw [h]
        _ ≤ |(n : K) * m| := abs_truncate_le _
        _ = |(n : K)| * m := by rw [abs_mul, abs_of_nonneg hm]
    by_contra hne
    have hpos : 0 < |(n : K)| := abs_pos.mpr (Int.cast_ne_zero.mpr hne)
    exact absurd hle (not_le.mpr (mul_lt_of_lt_one_right hpos hm'))
  · rintro rfl
    simp [truncate]

theorem fmod_neg (x m : K) : fmod (-x) m = -fmod x m := by
  unfold fmod
  rw [neg_div, truncate_neg]
  push_cast
  ring

/-- A quotient that is not negative is truncated to `k` where `k` goes into it. -/
theorem truncate_eq {x : K} {k : ℤ} (hk : 0 ≤ k) (hle : k ≤ x) (hlt : x < k + 1) :
    truncate x = k := by
  have hx : 0 ≤ x := le_trans (Int.cast_nonneg hk) hle
  rw [truncate, if_pos hx]
  exact Int.floor_eq_iff.mpr ⟨hle, hlt⟩

/-- The remainder of a number that is not negative lies below the divisor. -/
theorem fmod_of_nonneg {x m : K} (hx : 0 ≤ x) (hm : 0 < m) :
    0 ≤ fmod x m ∧ fmod x m < m ∧ 0 ≤ truncate (x / m) := by
  have hdiv : 0 ≤ x / m := div_nonneg hx hm.le
  have hle : m * ⌊x / m⌋ ≤ x := by
    rw [mul_comm, ← le_div_iff₀ hm]
    exact Int.floor_le _
  have hlt : x < m * (⌊x / m⌋ + 1) := by
    rw [mul_comm, ← div_lt_iff₀ hm]
    exact Int.lt_floor_add_one _
  rw [fmod, truncate, if_pos hdiv]
  exact ⟨by linarith, by linarith, Int.floor_nonneg.mpr hdiv⟩

/-- Multiples of the divisor added to a remainder that is not negative leave it. -/
theorem fmod_add_mul {r m : K} {k : ℤ} (hr : 0 ≤ r) (hlt : r < m) (hk : 0 ≤ k) :
    fmod (r + m * k) m = r := by
  have hm : 0 < m := lt_of_le_of_lt hr hlt
  have hquot : (r + m * k) / m = r / m + k := by
    rw [add_div, mul_div_cancel_left₀ _ hm.ne']
  have hpart : r / m < 1 := (div_lt_one hm).mpr hlt
  have htrunc : truncate ((r + m * k) / m) = k := by
    rw [hquot]
    exact truncate_eq hk (by linarith [div_nonneg hr hm.le]) (by linarith)
  rw [fmod, htrunc]
  ring

/-- Multiples of the divisor taken from a remainder that is not positive leave it. -/
theorem fmod_add_mul_of_nonpos {r m : K} {k : ℤ} (hr : r ≤ 0) (hlt : -m < r) (hk : k ≤ 0) :
    fmod (r + m * k) m = r := by
  have hopp : fmod (-r + m * ((-k : ℤ) : K)) m = -r :=
    fmod_add_mul (neg_nonneg.mpr hr) (neg_lt.mp hlt) (neg_nonneg.mpr hk)
  have heq : -r + m * ((-k : ℤ) : K) = -(r + m * k) := by
    push_cast
    ring
  rw [heq, fmod_neg] at hopp
  exact neg_injective hopp

/-- A number is the remainder of those that are a multiple of the divisor away from it on the side
away from zero, and of no others. -/
theorem fmod_eq_iff {x m r : K} (hm : 0 < m) :
    fmod x m = r ↔ |r| < m ∧ ∃ k : ℤ, x = r + m * k ∧ 0 ≤ k * r := by
  constructor
  · rintro rfl
    have hx : x = fmod x m + m * truncate (x / m) := by
      unfold fmod
      ring
    rcases le_total 0 x with hsign | hsign
    · obtain ⟨hnonneg, hlt, hquot⟩ := fmod_of_nonneg hsign hm
      refine ⟨by rwa [abs_of_nonneg hnonneg], _, hx, ?_⟩
      exact mul_nonneg (Int.cast_nonneg hquot) hnonneg
    · -- A number below zero has the remainder of its opposite, negated.
      obtain ⟨hnonneg, hlt, hquot⟩ := fmod_of_nonneg (neg_nonneg.mpr hsign) hm
      rw [fmod_neg] at hnonneg hlt
      rw [neg_div, truncate_neg] at hquot
      refine ⟨by rwa [← abs_neg, abs_of_nonneg hnonneg], _, hx, ?_⟩
      exact mul_nonneg_of_nonpos_of_nonpos (Int.cast_nonpos.mpr (neg_nonneg.mp hquot))
        (neg_nonneg.mp hnonneg)
  · rintro ⟨hlt, k, rfl, hsign⟩
    rw [abs_lt] at hlt
    rcases mul_nonneg_iff.mp hsign with ⟨hk, hr⟩ | ⟨hk, hr⟩
    · exact fmod_add_mul hr hlt.2 (Int.cast_nonneg_iff.mp hk)
    · exact fmod_add_mul_of_nonpos hr hlt.1 (Int.cast_nonpos.mp hk)

end Guillemot
