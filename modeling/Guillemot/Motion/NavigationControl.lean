import Guillemot.Motion.HighLevelControl
import Mathlib.Tactic.NormNum

/-!
# Navigation to a point

`PointCallback` of `NavigationControl.cpp` turns a target point into a strafe and a depth command.
Its percentages keep the sign of the target, so both thresholds lie above those of all targets on
the left; and `makeVoltage`, which maps a percentage from 5 on to a speed from 60 on, maps 0 to a
speed as well. The strafe command is positive for every target (`strafe_pos`), so that it mirrors no
target (`not_mirrors`).

A `float` is a rational number, without rounding, and an `int` an integer: the thrusts that 32-bit
coordinates lead to stay far below the largest `int`. The variables of the node for lines are left
out, as `LineCallback` returns at once.
-/

namespace Guillemot.Motion

/-- The variables that `PointCallback` writes. -/
structure NavigationControl where
  Begun : Bool
  start_x : ℚ
  start_y : ℚ
deriving DecidableEq, Repr

namespace NavigationControl

/-- A message on `Center_On_Point`. -/
structure Point where
  x : ℤ
  y : ℤ
deriving DecidableEq, Repr

/-- The directions that are published: `"Straf"` and `"Depth"`. -/
inductive Direction where
  | straf
  | depth
deriving DecidableEq, Repr

/-- A message on `High_Level_Motion`, whose `MotionType` is `"Manual"`. -/
structure ManualControl where
  Direction : Direction
  Value : ℚ
deriving DecidableEq, Repr

/-- `MAX_THRESHOLD`. -/
def MAX_THRESHOLD : ℚ := 5 / 100

/-- `MIN_THRESHOLD`. -/
def MIN_THRESHOLD : ℚ := 1 / 100

/-- `makeVoltage`. -/
def makeVoltage (percent : ℚ) : ℚ := (percent - 5) * (255 - 60) / (100 - 5) + 60

/-- `setDive`. -/
def setDive (val : ℚ) : ManualControl := ⟨.depth, makeVoltage val⟩

/-- `setStrafe`. -/
def setStrafe (val : ℚ) : ManualControl := ⟨.straf, makeVoltage val⟩

/-- `PointCallback`, with what it publishes. The divisions of the target are in integers. -/
def PointCallback (n : NavigationControl) (msg : Point) : NavigationControl × List ManualControl :=
  let target_x := msg.x
  let target_y := msg.y
  if target_x = 0 ∧ target_y = 0 then
    ({ n with Begun := false, start_x := 0, start_y := 0 }, [setStrafe 0, setDive 0])
  else
    let n := if !n.Begun then { n with start_x := msg.x, start_y := msg.y, Begun := true } else n
    let dir_x : ℤ := if target_x > 0 then 1 else -1
    let dir_y : ℤ := if target_y > 0 then -1 else 1
    let per_x : ℚ := target_x.tdiv 240
    let per_y : ℚ := target_y.tdiv 320
    let minT : ℤ := 50
    let range : ℤ := 40
    let thrust_x : ℤ :=
      if per_x < MAX_THRESHOLD then
        if per_x > MIN_THRESHOLD then -60 * dir_x else 0
      else truncate ((range * per_x + minT) * dir_x)
    let thrust_y : ℤ :=
      if per_y < MAX_THRESHOLD then
        if per_y > MIN_THRESHOLD then -60 * dir_y else 0
      else if dir_y > 0 then
        let range : ℤ := 30
        truncate ((range * per_y + minT) * dir_y)
      else 0
    (n, [setStrafe thrust_x, setDive thrust_y])

/-- The values of the strafe commands among what is published. -/
def strafes (published : List ManualControl) : List ℚ :=
  (published.filter (·.Direction = .straf)).map (·.Value)

/-- The target on the other side. -/
def Point.mirrored (msg : Point) : Point := ⟨-msg.x, msg.y⟩

/-- The thrust mirrors a target: the strafe command for the target on the other side is the opposite
one, there is none to a target straight ahead, and one towards it from 240 pixels on. -/
structure Mirrors (n : NavigationControl) (msg : Point) : Prop where
  opposite : strafes (n.PointCallback msg.mirrored).2 =
    (strafes (n.PointCallback msg).2).map (- ·)
  ahead : msg.x = 0 → strafes (n.PointCallback msg).2 = [0]
  toward : 240 ≤ |msg.x| → ∃ v, strafes (n.PointCallback msg).2 = [v] ∧ 0 < v * msg.x

/-- The thrust in the direction of the strafe commands. -/
def strafeThrust (x : ℤ) : ℤ := if 240 ≤ x then 40 * (x / 240) + 50 else 0

/-- The percentage of a target less than 240 pixels to the right. -/
theorem tdiv_nonpos {x : ℤ} (hx : x < 240) : x.tdiv 240 ≤ 0 := by
  rcases le_or_gt 0 x with hnonneg | hneg
  · exact (Int.tdiv_eq_zero_of_lt hnonneg hx).le
  · have hopp : 0 ≤ (-x).tdiv 240 := Int.tdiv_nonneg (by omega) (by omega)
    rw [Int.neg_tdiv] at hopp
    omega

/-- One strafe command is published for each target, whatever the variables are. -/
theorem strafes_pointCallback (n : NavigationControl) (msg : Point) :
    strafes (n.PointCallback msg).2 = [makeVoltage (strafeThrust msg.x)] := by
  obtain ⟨x, y⟩ := msg
  by_cases horigin : x = 0 ∧ y = 0
  · obtain ⟨rfl, rfl⟩ := horigin
    rfl
  · unfold PointCallback strafeThrust
    dsimp only
    rw [if_neg horigin]
    rcases lt_or_ge x 240 with hlt | hge
    · have hper : (x.tdiv 240 : ℚ) ≤ 0 := by exact_mod_cast tdiv_nonpos hlt
      have hmax : (x.tdiv 240 : ℚ) < MAX_THRESHOLD := lt_of_le_of_lt hper (by decide +kernel)
      have hmin : ¬(x.tdiv 240 : ℚ) > MIN_THRESHOLD :=
        not_lt.mpr (le_trans hper (by decide +kernel))
      rw [if_pos hmax, if_neg hmin, if_neg (not_le.mpr hlt)]
      rfl
    · have hquot : x.tdiv 240 = x / 240 := Int.tdiv_eq_ediv_of_nonneg (by omega)
      have hper : (1 : ℚ) ≤ x.tdiv 240 := by
        rw [hquot]
        exact_mod_cast (by omega : 1 ≤ x / 240)
      have hmax : ¬(x.tdiv 240 : ℚ) < MAX_THRESHOLD :=
        not_lt.mpr (le_trans (by decide +kernel) hper)
      have hthrust : truncate (((40 : ℤ) * (x.tdiv 240 : ℚ) + (50 : ℤ)) * (1 : ℤ)) =
          40 * (x / 240) + 50 := by
        rw [hquot]
        exact truncate_eq (by omega) (by push_cast; linarith) (by push_cast; linarith)
      rw [if_neg hmax, if_pos (by omega : x > 0), if_pos hge, hthrust]
      rfl

/-- It is positive, whichever side the target is on. -/
theorem strafe_pos (x : ℤ) : 0 < makeVoltage (strafeThrust x) := by
  have hthrust : (0 : ℚ) ≤ strafeThrust x := by
    unfold strafeThrust
    split_ifs with hx
    · exact_mod_cast (by omega : 0 ≤ 40 * (x / 240) + 50)
    · exact le_of_eq Int.cast_zero.symm
  unfold makeVoltage
  linarith

/-- The thrust mirrors no target. -/
theorem not_mirrors (n : NavigationControl) (msg : Point) : ¬n.Mirrors msg := by
  intro h
  have hopposite := h.opposite
  rw [strafes_pointCallback, strafes_pointCallback] at hopposite
  have heq : makeVoltage (strafeThrust msg.mirrored.x) = -makeVoltage (strafeThrust msg.x) :=
    List.head_eq_of_cons_eq hopposite
  have hleft := strafe_pos msg.mirrored.x
  have hright := strafe_pos msg.x
  linarith

/-- The command is towards the targets on the right only. -/
theorem toward_iff (n : NavigationControl) (msg : Point) :
    (∃ v, strafes (n.PointCallback msg).2 = [v] ∧ 0 < v * msg.x) ↔ 0 < msg.x := by
  have hpos := strafe_pos msg.x
  rw [strafes_pointCallback]
  constructor
  · rintro ⟨v, hv, htoward⟩
    obtain rfl := List.head_eq_of_cons_eq hv
    exact_mod_cast pos_of_mul_pos_right htoward hpos.le
  · intro hright
    exact ⟨_, rfl, mul_pos hpos (Int.cast_pos.mpr hright)⟩

/-- The target 240 pixels to the left is steered away from. -/
theorem left_target_missed :
    ¬(∀ (n : NavigationControl) (msg : Point), n.Mirrors msg) := by
  intro h
  obtain ⟨v, hv, htoward⟩ := (h ⟨false, 0, 0⟩ ⟨-240, 0⟩).toward (by decide)
  have hvalue : strafes (PointCallback ⟨false, 0, 0⟩ ⟨-240, 0⟩).2 = [945 / 19] := by decide +kernel
  rw [hvalue] at hv
  obtain rfl := List.head_eq_of_cons_eq hv
  exact absurd htoward (by decide +kernel)

end NavigationControl

end Guillemot.Motion
