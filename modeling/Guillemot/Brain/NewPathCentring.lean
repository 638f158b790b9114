import Guillemot.Brain.NewPathTask
import Mathlib.Algebra.Order.Ring.Abs
import Mathlib.Tactic.Linarith

/-!
# Commands of the centring

`centerX` and `centerY` divide an offset by a whole number, and the division rounds down: towards
zero for the offsets on one side of the path, and away from zero for those on the other side.
`centring_symmetric_iff` says for which messages the commands are symmetric nevertheless.
-/

namespace Guillemot.Brain

/-- The numbers of `int16`. -/
def IsInt16 (x : ℤ) : Prop := -32768 ≤ x ∧ x ≤ 32767

instance (x : ℤ) : Decidable (IsInt16 x) := inferInstanceAs (Decidable (_ ∧ _))

/-- The value of a message in a direction. -/
def Published.valueIn (direction : Direction) : Published → Option ℚ
  | .motion msg => if msg.Direction = some direction then some msg.Value else none
  | .moduleEnable _ => none

/-- The commands that a part of the task issues in a direction. -/
def commands {α : Type} (direction : Direction) (task : Task α) (s : Shared) : List ℚ :=
  (task.alone s).1.filterMap (Published.valueIn direction)

/-- The commands of `centerX` and of `centerY` for an offset, which is divided by `scale`. -/
def centring (scale x : ℤ) : ℤ := if |x| > 30 then -(x / scale) else 0

/-- The law of a centring at the offset `x`: the command for the mirrored offset is the negative
one, none is idle off centre, and larger offsets have no smaller commands. -/
structure Symmetric (command : ℤ → List ℚ) (x : ℤ) : Prop where
  mirrored : IsInt16 (-x) → command (-x) = (command x).map (- ·)
  driven : 30 < |x| → ∀ v ∈ command x, v ≠ 0
  growing : ∀ y, IsInt16 y → |x| ≤ |y| → ∀ v ∈ command x, ∀ w ∈ command y, |v| ≤ |w|

theorem commands_centerX (msg : ImgRecObject) (s : Shared) :
    commands .strafe (centerX msg) s = [(centring 300 msg.center_x : ℚ)] := by
  unfold centerX centring
  split_ifs with h
  · rw [Int.cast_neg]
    rfl
  · rfl

theorem commands_centerY (msg : ImgRecObject) (s : Shared) :
    commands .forward (centerY msg) s = [(centring 400 msg.center_y : ℚ)] := by
  unfold centerY centring
  split_ifs with h
  · rw [Int.cast_neg]
    rfl
  · rfl

/-! ## The law of one offset -/

variable {scale x y : ℤ}

/-- Rounding down is symmetric for whole quotients only. -/
theorem neg_ediv_eq_neg_iff (hscale : 0 < scale) : -x / scale = -(x / scale) ↔ scale ∣ x := by
  rw [Int.neg_ediv, Int.sign_eq_one_of_pos hscale]
  split_ifs with h
  · exact iff_of_true (by omega) h
  · exact iff_of_false (by omega) h

/-- The magnitude of a command is not smaller than the quotient of the magnitudes. -/
theorem ediv_le_abs_centring (hscale : 0 < scale) (hx : 30 < |x|) :
    |x| / scale ≤ |centring scale x| := by
  unfold centring
  rw [if_pos hx, abs_neg]
  rcases le_or_gt 0 x with hpos | hneg
  · rw [abs_of_nonneg hpos]
    exact le_abs_self _
  · -- On this side rounding down is away from zero.
    have hquot : x / scale < 0 := Int.ediv_neg_of_neg_of_pos hneg hscale
    rw [abs_of_neg hneg, abs_of_neg hquot, Int.neg_ediv, Int.sign_eq_one_of_pos hscale]
    split_ifs <;> omega

/-- For a multiple of the scale it is the quotient. -/
theorem abs_centring_of_dvd (hscale : 0 < scale) (hx : 30 < |x|) (hdvd : scale ∣ x) :
    |centring scale x| * scale = |x| := by
  unfold centring
  rw [if_pos hx, abs_neg, ← abs_of_pos hscale, ← abs_mul, abs_of_pos hscale,
    Int.ediv_mul_cancel hdvd]

/-- Such an offset off centre is not without a command. -/
theorem centring_ne_zero (hscale : 0 < scale) (hx : 30 < |x|) (h : scale ∣ x ∨ x = -32768) :
    centring scale x ≠ 0 := by
  rcases h with hdvd | hlowest
  · have hmul := abs_centring_of_dvd hscale hx hdvd
    intro hzero
    rw [hzero, abs_zero, zero_mul] at hmul
    omega
  · have hquot : x / scale < 0 := Int.ediv_neg_of_neg_of_pos (by omega) hscale
    unfold centring
    rw [if_pos hx]
    omega

/-- No larger offset has a smaller command than such an offset. -/
theorem abs_centring_le (hscale : 0 < scale) (hx : 30 < |x|) (h : scale ∣ x ∨ x = -32768)
    (hy : IsInt16 y) (hle : |x| ≤ |y|) : |centring scale x| ≤ |centring scale y| := by
  rcases h with hdvd | hlowest
  · calc |centring scale x| = |x| / scale :=
          Int.eq_ediv_of_mul_eq_left hscale.ne' (abs_centring_of_dvd hscale hx hdvd)
      _ ≤ |y| / scale := Int.ediv_le_ediv hscale hle
      _ ≤ |centring scale y| := ediv_le_abs_centring hscale (hx.trans_le hle)
  · -- No other offset is as large.
    have hsame : y = x := by
      rw [hlowest, abs_neg, abs_of_pos (by omega : (0 : ℤ) < 32768), le_abs] at hle
      unfold IsInt16 at hy
      omega
    rw [hsame]

/-- The law holds near the centre, where nothing is commanded, for the multiples of the scale, and
for the offset that has no mirror image. -/
theorem symmetric_centring_iff (hscale : 0 < scale) (hx : IsInt16 x) :
    Symmetric (fun x => [(centring scale x : ℚ)]) x ↔ |x| ≤ 30 ∨ scale ∣ x ∨ x = -32768 := by
  constructor
  · -- Only the mirror image is needed for this direction.
    intro h
    by_contra hnone
    push Not at hnone
    obtain ⟨hfar, hdvd, hlowest⟩ := hnone
    have himage : IsInt16 (-x) := by
      unfold IsInt16 at hx ⊢
      omega
    have hcommands : centring scale (-x) = -centring scale x := by
      have := h.mirrored himage
      simp only [List.map_cons, List.map_nil, List.cons.injEq, and_true] at this
      exact_mod_cast this
    unfold centring at hcommands
    rw [if_pos (by rwa [abs_neg]), if_pos hfar, neg_inj] at hcommands
    exact hdvd ((neg_ediv_eq_neg_iff hscale).mp hcommands)
  · intro hcond
    by_cases hfar : 30 < |x|
    · replace hcond := hcond.resolve_left (not_le.mpr hfar)
      constructor
      · intro himage
        have hdvd : scale ∣ x := hcond.resolve_right fun hlowest => by
          unfold IsInt16 at himage
          omega
        unfold centring
        rw [if_pos (by rwa [abs_neg]), if_pos hfar, (neg_ediv_eq_neg_iff hscale).mpr hdvd]
        simp
      · intro _ v hv
        rw [List.mem_singleton.mp hv, Int.cast_ne_zero]
        exact centring_ne_zero hscale hfar hcond
      · intro y hy hle v hv w hw
        rw [List.mem_singleton.mp hv, List.mem_singleton.mp hw]
        exact_mod_cast abs_centring_le hscale hfar hcond hy hle
    · have hidle : ∀ y, |y| = |x| → centring scale y = 0 := by
        intro y hy
        unfold centring
        rw [if_neg (by rwa [hy])]
      constructor
      · intro _
        simp [hidle x rfl, hidle (-x) (abs_neg x)]
      · exact fun h => absurd h hfar
      · intro y _ _ v hv w _
        rw [List.mem_singleton.mp hv, hidle x rfl]
        simp

/-! ## The law of a message -/

/-- An offset at which a centring that divides by `scale` keeps the law. -/
def Balanced (scale x : ℤ) : Prop := |x| ≤ 30 ∨ scale ∣ x ∨ x = -32768

/-- For a message with the offsets of an `int16`, both centrings keep the law exactly when each
offset is near the centre or a multiple of its divisor, or has no mirror image. -/
theorem centring_symmetric_iff (msg : ImgRecObject) (s : Shared) (hx : IsInt16 msg.center_x)
    (hy : IsInt16 msg.center_y) :
    Symmetric (fun x => commands .strafe (centerX { msg with center_x := x }) s) msg.center_x ∧
        Symmetric (fun y => commands .forward (centerY { msg with center_y := y }) s)
          msg.center_y ↔
      Balanced 300 msg.center_x ∧ Balanced 400 msg.center_y := by
  simp only [commands_centerX, commands_centerY]
  exact and_congr (symmetric_centring_iff (by omega) hx) (symmetric_centring_iff (by omega) hy)

/-- At 300 and -800 both are symmetric. -/
theorem whole_steps_symmetric :
    Symmetric (fun x => commands .strafe (centerX ⟨x, -800, 0⟩) System.init.shared) 300 ∧
      Symmetric (fun y => commands .forward (centerY ⟨300, y, 0⟩) System.init.shared) (-800) :=
  (centring_symmetric_iff ⟨300, -800, 0⟩ System.init.shared (by decide) (by decide)).mpr
    ⟨.inr (.inl (by decide)), .inr (.inl (by decide))⟩

/-- At 31 the strafe command is zero, and at -31 it is one. -/
theorem idle_off_centre :
    commands .strafe (centerX ⟨31, 0, 0⟩) System.init.shared = [0] ∧
      commands .strafe (centerX ⟨-31, 0, 0⟩) System.init.shared = [1] ∧
      ¬ Symmetric (fun x => commands .strafe (centerX ⟨x, 0, 0⟩) System.init.shared) 31 := by
  have hright : commands .strafe (centerX ⟨31, 0, 0⟩) System.init.shared = [0] := by
    simp [commands_centerX, centring]
  refine ⟨hright, by norm_num [commands_centerX, centring], fun h => ?_⟩
  exact h.driven (by decide) 0 (by simp [hright]) rfl

end Guillemot.Brain
