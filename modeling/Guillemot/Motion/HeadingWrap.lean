import Guillemot.Library.Circle
import Guillemot.Motion.Controllers

/-!
# Headings around the half turn

Yaws lie above -180 and not above 180, and the target that is asked for is an offset from the yaw of
that time. `mTargetHeadingCallback` takes the remainder of the division by 180 instead of bringing
the sum back by whole turns, and `mHeadingCallback` takes the difference of yaw and target as it is.
`heading_wraps_iff` says which yaws and offsets this is right for: the sum stays between the half
turns (or is a whole turn), and the later yaw differs from it by at most half a turn.
-/

namespace Guillemot.Motion

open Guillemot.Circle (centered arc Approaches)

/-- Half a turn has a length. -/
theorem halfTurn_pos : (0 : ℚ) < 180 := by norm_num

/-- A turn speed that is right for a yaw and a target: it turns the short way round, and is zero
only within the two hundredths of a degree in which the yaw counts as the target. -/
def TurnsShortWay (yaw target speed : ℚ) : Prop :=
  (speed = 0 ∧ arc halfTurn_pos yaw target < 2 / 100) ∨
    (speed ≠ 0 ∧ Approaches halfTurn_pos (SignType.sign speed) yaw target)

/-- The target that is set for an offset is the direction asked for, and every turn speed published
for a later yaw, while this is the target, is right. -/
structure HeadingController.Wraps (h : HeadingController) (offset yaw : ℚ) : Prop where
  target : (h.targetHeadingCallback offset).targetYaw = centered halfTurn_pos (h.currYaw + offset)
  speed : ∀ later : HeadingController,
    later.targetYaw = (h.targetHeadingCallback offset).targetYaw →
      ∀ msg ∈ (later.headingCallback yaw).2, msg.motionType = .manual →
        TurnsShortWay yaw later.targetYaw msg.value

/-! ## The target -/

/-- A sum between the half turns is its own remainder. -/
theorem fmod_of_abs_lt {x : ℚ} (h : |x| < 180) : fmod x 180 = x :=
  (fmod_eq_iff (by norm_num)).mpr ⟨h, 0, by simp, by simp⟩

/-- Two half turns have no remainder. -/
theorem fmod_turn : fmod (360 : ℚ) 180 = 0 :=
  (fmod_eq_iff (by norm_num)).mpr ⟨by norm_num, 2, by norm_num, by norm_num⟩

/-- The remainder is the direction itself where no half turn is taken away, or two are. -/
theorem fmod_eq_centered_iff {x : ℚ} (hlow : -360 < x) (hhigh : x ≤ 360) :
    fmod x 180 = centered halfTurn_pos x ↔ |x| < 180 ∨ x = 360 := by
  obtain ⟨hlt, k, hk, hsign⟩ := (fmod_eq_iff (x := x) (m := 180) (by norm_num)).mp rfl
  rw [abs_lt] at hlt
  constructor
  · intro h
    obtain ⟨-, z, hz⟩ := (Circle.centered_eq_iff halfTurn_pos).mp h.symm
    have heven : k = 2 * z := by
      have hturns : (k : ℚ) = 2 * z := by linarith
      exact_mod_cast hturns
    -- No half turn has been taken away, or two at once.
    rcases lt_trichotomy z 0 with hneg | rfl | hpos
    · have hk' : (k : ℚ) ≤ -2 := by exact_mod_cast (by omega : k ≤ -2)
      have hr : fmod x 180 ≤ 0 := nonpos_of_mul_nonneg_right hsign (by linarith)
      linarith
    · refine .inl (abs_lt.mpr ?_)
      rw [hz]
      simpa using hlt
    · have hk' : (2 : ℚ) ≤ k := by exact_mod_cast (by omega : 2 ≤ k)
      have hr : 0 ≤ fmod x 180 := nonneg_of_mul_nonneg_right hsign (by linarith)
      exact .inr (by linarith)
  · rintro (habs | rfl)
    · rw [fmod_of_abs_lt habs, eq_comm, Circle.centered_eq_iff]
      rw [abs_lt] at habs
      exact ⟨⟨by linarith, by linarith⟩, 0, by simp⟩
    · rw [fmod_turn, eq_comm, Circle.centered_eq_iff]
      exact ⟨⟨by norm_num, by norm_num⟩, 1, by norm_num⟩

/-! ## The turn speed -/

/-- The turn speed that is published for an error. -/
def turnSpeed (yaw target : ℚ) : ℚ := -clamp maxTurn (headingKP * yawError yaw target)

/-- A reading publishes the turn speed of its error, if anything. -/
theorem manual_mem_headingCallback {h : HeadingController} {yaw : ℚ} {msg : HighLevelControl}
    (hmsg : msg ∈ (h.headingCallback yaw).2) (hmanual : msg.motionType = .manual) :
    msg.value = turnSpeed yaw h.targetYaw := by
  unfold HeadingController.headingCallback at hmsg
  dsimp only at hmsg
  split_ifs at hmsg
  · rcases List.mem_pair.mp hmsg with rfl | rfl
    · rfl
    · cases hmanual
  · cases hmsg
  · cases hmsg

/-- A controller that is on and moving publishes it. -/
theorem turnSpeed_mem_headingCallback {h : HeadingController} (hon : h.on = true)
    (hmoving : h.isMoving = true) (yaw : ℚ) :
    setTurnSpeed (turnSpeed yaw h.targetYaw) ∈ (h.headingCallback yaw).2 := by
  simp only [HeadingController.headingCallback, hon, hmoving, if_true]
  exact List.mem_cons_self

/-- Cutting a number off keeps its sign. -/
theorem sign_clamp {bound : ℚ} (hbound : 0 < bound) (x : ℚ) :
    SignType.sign (clamp bound x) = SignType.sign x := by
  unfold clamp
  split_ifs with hhigh hlow
  · rw [sign_pos hbound, sign_pos (by linarith)]
  · rw [sign_neg (by linarith), sign_neg (by linarith)]
  · rfl

/-- The speed has the sign of the way from the yaw to the target, taken as numbers. -/
theorem sign_turnSpeed {yaw target : ℚ} (h : 2 / 100 ≤ |target - yaw|) :
    SignType.sign (turnSpeed yaw target) = SignType.sign (target - yaw) := by
  have herror : yawError yaw target = -(target - yaw) := by
    rw [yawError, if_neg (by rw [abs_sub_comm]; linarith)]
    ring
  have hgain : SignType.sign headingKP = 1 := sign_pos (by norm_num [headingKP])
  rw [turnSpeed, Left.sign_neg, sign_clamp (by norm_num [maxTurn]), sign_mul, hgain, one_mul,
    herror, Left.sign_neg, neg_neg]

/-- Close to the target the speed is zero. -/
theorem turnSpeed_of_lt {yaw target : ℚ} (h : |target - yaw| < 2 / 100) :
    turnSpeed yaw target = 0 := by
  rw [turnSpeed, yawError, if_pos (by rwa [abs_sub_comm]), mul_zero]
  decide +kernel

/-- The speed is right exactly when yaw and target differ by at most half a turn. -/
theorem turnSpeed_iff {yaw target : ℚ} (h : |target - yaw| < 360) :
    TurnsShortWay yaw target (turnSpeed yaw target) ↔ |target - yaw| ≤ 180 := by
  rcases lt_or_ge |target - yaw| (2 / 100) with hclose | hfar
  · have harc : arc halfTurn_pos yaw target = |target - yaw| :=
      Circle.arc_of_le halfTurn_pos (by linarith)
    exact iff_of_true (.inl ⟨turnSpeed_of_lt hclose, by rwa [harc]⟩) (by linarith)
  have hsign := sign_turnSpeed hfar
  have hne : turnSpeed yaw target ≠ 0 := by
    rw [← sign_ne_zero, hsign, sign_ne_zero, ← abs_pos]
    linarith
  rw [TurnsShortWay, hsign]
  constructor
  · rintro (⟨hzero, -⟩ | ⟨-, happroaches⟩)
    · exact absurd hzero hne
    · by_contra hlt
      exact Circle.not_approaches_of_lt halfTurn_pos (by linarith) (by linarith) happroaches
  · exact fun hle => .inr ⟨hne, Circle.approaches_of_le halfTurn_pos (by linarith)⟩

/-- An offset is turned to in the right way exactly when the sum of yaw and offset stays between the
half turns and differs from the later yaw by at most half a turn, or the sum is a whole turn. -/
theorem heading_wraps_iff (h : HeadingController) (offset yaw : ℚ)
    (hcurr : -180 < h.currYaw ∧ h.currYaw ≤ 180) (hoffset : -180 ≤ offset ∧ offset ≤ 180)
    (hyaw : -180 < yaw ∧ yaw ≤ 180) :
    h.Wraps offset yaw ↔
      (|h.currYaw + offset| < 180 ∧ |h.currYaw + offset - yaw| ≤ 180) ∨
        h.currYaw + offset = 360 := by
  obtain ⟨hcurrLow, hcurrHigh⟩ := hcurr
  obtain ⟨hoffsetLow, hoffsetHigh⟩ := hoffset
  obtain ⟨hyawLow, hyawHigh⟩ := hyaw
  have htarget : (h.targetHeadingCallback offset).targetYaw = fmod (h.currYaw + offset) 180 := rfl
  have hcentered := fmod_eq_centered_iff (x := h.currYaw + offset) (by linarith) (by linarith)
  have hspeed : (∀ later : HeadingController,
      later.targetYaw = fmod (h.currYaw + offset) 180 →
        ∀ msg ∈ (later.headingCallback yaw).2, msg.motionType = .manual →
          TurnsShortWay yaw later.targetYaw msg.value) ↔
      |fmod (h.currYaw + offset) 180 - yaw| ≤ 180 := by
    obtain ⟨hlt, -⟩ :=
      (fmod_eq_iff (x := h.currYaw + offset) (m := 180) (by norm_num)).mp rfl
    rw [abs_lt] at hlt
    rw [← turnSpeed_iff (abs_lt.mpr ⟨by linarith, by linarith⟩)]
    constructor
    · -- One that is on and moving publishes the speed.
      intro hall
      let later : HeadingController :=
        { h with on := true, isMoving := true, targetYaw := fmod (h.currYaw + offset) 180 }
      exact hall later rfl _ (turnSpeed_mem_headingCallback (h := later) rfl rfl yaw) rfl
    · intro hright later hlater msg hmsg hmanual
      rw [manual_mem_headingCallback hmsg hmanual, hlater]
      exact hright
  have hwraps : h.Wraps offset yaw ↔
      fmod (h.currYaw + offset) 180 = centered halfTurn_pos (h.currYaw + offset) ∧
        |fmod (h.currYaw + offset) 180 - yaw| ≤ 180 :=
    ⟨fun hw => ⟨hw.target, hspeed.mp hw.speed⟩, fun hw => ⟨hw.1, hspeed.mpr hw.2⟩⟩
  rw [hwraps, hcentered]
  constructor
  · rintro ⟨habs | hturn, hle⟩
    · rw [fmod_of_abs_lt habs] at hle
      exact .inl ⟨habs, hle⟩
    · exact .inr hturn
  · rintro (⟨habs, hle⟩ | hturn)
    · exact ⟨.inl habs, by rwa [fmod_of_abs_lt habs]⟩
    · refine ⟨.inr hturn, ?_⟩
      rw [hturn, fmod_turn]
      exact abs_le.mpr ⟨by linarith, by linarith⟩

/-- From straight ahead to a right angle, half of the turn being left. -/
theorem quarter_turn_wraps : HeadingController.init.Wraps 90 45 :=
  (heading_wraps_iff .init 90 45 (by decide +kernel) (by decide +kernel) (by decide +kernel)).mpr
    (.inl (by decide +kernel))

/-- Twenty degrees further than 170 are taken for 10. -/
theorem offset_across_half_turn :
    ¬ ∀ (h : HeadingController) (offset yaw : ℚ), -180 < h.currYaw ∧ h.currYaw ≤ 180 →
      -180 ≤ offset ∧ offset ≤ 180 → -180 < yaw ∧ yaw ≤ 180 → h.Wraps offset yaw := by
  intro hall
  have hwraps := hall { HeadingController.init with currYaw := 170 } 20 170 (by decide +kernel)
    (by decide +kernel) (by decide +kernel)
  have htarget : centered halfTurn_pos (170 + 20) = fmod (170 + 20) 180 := hwraps.target.symm
  obtain ⟨-, z, hz⟩ := (Circle.centered_eq_iff halfTurn_pos).mp htarget
  have hten : fmod (170 + 20 : ℚ) 180 = 10 :=
    (fmod_eq_iff (by norm_num)).mpr ⟨by norm_num, 1, by norm_num, by norm_num⟩
  rw [hten] at hz
  have hhalf : (2 * z : ℚ) = 1 := by linarith
  have : 2 * z = 1 := by exact_mod_cast hhalf
  omega

end Guillemot.Motion
