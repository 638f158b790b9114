import Mathlib.Algebra.Order.ToIntervalMod
import Mathlib.Data.Sign.Basic
import Mathlib.Tactic.Linarith
import Mathlib.Tactic.Ring

/-!
# Directions on a circle

Numbers that differ by a multiple of two half turns `h` are the same direction. `centered` is the
representative of a direction closest to zero, half a turn being positive, and `arc` the length of
the shorter way from one direction to another. Where two numbers differ by less than a turn, `arc`
is read off their difference. `approaches_of_le` and `not_approaches_of_lt` say which way round
is the shorter one: towards the other number when they differ by at most half a turn, and away from
it otherwise.
-/

namespace Guillemot

namespace Circle

variable {K : Type*} [Field K] [LinearOrder K] [IsStrictOrderedRing K] [Archimedean K]
variable {h : K} (hpos : 0 < h)

/-- The representative above `-h` and not above `h`. -/
noncomputable def centered (x : K) : K := toIocMod (add_pos hpos hpos) (-h) x

/-- The length of the shorter way between two directions. -/
noncomputable def arc (x y : K) : K := |centered hpos (y - x)|

/-- The representative is the number of its interval that differs by whole turns. -/
theorem centered_eq_iff {x c : K} :
    centered hpos x = c ↔ (-h < c ∧ c ≤ h) ∧ ∃ z : ℤ, x = c + z * (h + h) := by
  have hend : -h + (h + h) = h := by ring
  rw [centered, toIocMod_eq_iff, hend, Set.mem_Ioc]
  simp only [zsmul_eq_mul]

/-- Numbers that differ by at most half a turn. -/
theorem arc_of_le {x y : K} (hle : |y - x| ≤ h) : arc hpos x y = |y - x| := by
  obtain ⟨hlow, hhigh⟩ := abs_le.mp hle
  rcases hlow.eq_or_lt with heq | hlt
  · -- Half a turn is the same both ways.
    have hcentered : centered hpos (y - x) = h :=
      (centered_eq_iff hpos).mpr ⟨⟨by linarith, le_refl _⟩, -1, by push_cast; linarith⟩
    rw [arc, hcentered, ← heq, abs_neg]
  · have hcentered : centered hpos (y - x) = y - x :=
      (centered_eq_iff hpos).mpr ⟨⟨hlt, hhigh⟩, 0, by simp⟩
    rw [arc, hcentered]

/-- Numbers that differ by more than half a turn, and less than a whole one. -/
theorem arc_of_lt {x y : K} (hlt : h < |y - x|) (hturn : |y - x| < h + h) :
    arc hpos x y = h + h - |y - x| := by
  rcases lt_abs.mp hlt with hup | hdown
  · have habs : |y - x| = y - x := abs_of_pos (by linarith)
    have hcentered : centered hpos (y - x) = y - x - (h + h) :=
      (centered_eq_iff hpos).mpr ⟨⟨by linarith, by linarith⟩, 1, by push_cast; ring⟩
    rw [arc, hcentered, habs, abs_of_neg (by linarith)]
    ring
  · have habs : |y - x| = -(y - x) := abs_of_neg (by linarith)
    have hcentered : centered hpos (y - x) = y - x + (h + h) :=
      (centered_eq_iff hpos).mpr ⟨⟨by linarith, by linarith⟩, -1, by push_cast; ring⟩
    rw [arc, hcentered, habs, abs_of_pos (by linarith)]
    ring

/-- Only directions that are the same have no way between them. -/
theorem arc_eq_zero_iff {x y : K} : arc hpos x y = 0 ↔ ∃ z : ℤ, y - x = z * (h + h) := by
  rw [arc, abs_eq_zero, centered_eq_iff]
  simp only [zero_add]
  exact and_iff_right ⟨by linarith, by linarith⟩

/-- Turning by `d` in the direction of a sign takes `d` from the way to a direction, as long as
there is something left of it. -/
def Approaches (s : SignType) (x y : K) : Prop :=
  ∀ d, 0 ≤ d → d ≤ arc hpos x y → arc hpos (x + s * d) y = arc hpos x y - d

/-- The shorter way to a number that differs by at most half a turn leads to it. -/
theorem approaches_of_le {x y : K} (hhalf : |y - x| ≤ h) :
    Approaches hpos (SignType.sign (y - x)) x y := by
  intro d hd hle
  rw [arc_of_le hpos hhalf] at hle ⊢
  have hrest : |y - (x + SignType.sign (y - x) * d)| = |y - x| - d := by
    rcases lt_trichotomy (y - x) 0 with hneg | hzero | hup
    · rw [abs_of_neg hneg] at hle ⊢
      rw [sign_neg hneg, SignType.coe_neg, SignType.coe_one, abs_of_nonpos (by linarith)]
      ring
    · rw [hzero, abs_zero] at hle
      obtain rfl : d = 0 := le_antisymm hle hd
      simp
    · rw [abs_of_pos hup] at hle ⊢
      rw [sign_pos hup, SignType.coe_one, abs_of_nonneg (by linarith)]
      ring
  rw [arc_of_le hpos (by rw [hrest]; linarith), hrest]

/-- It leads away from a number that differs by more. -/
theorem not_approaches_of_lt {x y : K} (hlt : h < |y - x|) (hturn : |y - x| < h + h) :
    ¬ Approaches hpos (SignType.sign (y - x)) x y := by
  intro happroach
  have harc := arc_of_lt hpos hlt hturn
  have hall := happroach (arc hpos x y) (by rw [harc]; linarith) (le_refl _)
  rw [sub_self, arc_eq_zero_iff, harc] at hall
  obtain ⟨z, hz⟩ := hall
  -- Were it the way there, the difference would be a number of half turns.
  obtain ⟨k, hk⟩ : ∃ k : ℤ, |y - x| = k * h := by
    rcases lt_trichotomy (y - x) 0 with hneg | hzero | hup
    · rw [sign_neg hneg, SignType.coe_neg, SignType.coe_one, abs_of_neg hneg] at hz
      exact ⟨1 - z, by rw [abs_of_neg hneg]; push_cast; linarith⟩
    · exact ⟨0, by simp [hzero]⟩
    · rw [sign_pos hup, SignType.coe_one, abs_of_pos hup] at hz
      exact ⟨z + 1, by rw [abs_of_pos hup]; push_cast; linarith⟩
  have hone : (1 : K) < k := lt_of_mul_lt_mul_right (by linarith) hpos.le
  have htwo : (k : K) < 2 := lt_of_mul_lt_mul_right (by linarith) hpos.le
  have hlow : 1 < k := by exact_mod_cast hone
  have hhigh : k < 2 := by exact_mod_cast htwo
  omega

end Circle

end Guillemot
