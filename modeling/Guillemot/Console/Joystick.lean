import Guillemot.Motion.HighLevelControl

/-!
# The joystick of the console

`readJoystickInput` and `sendMotorSpeedMsg` of `SubConsole.cpp`. A poll compares the four axes with
what they were in the poll before, sets the values of six thrusters for those that have changed, and
publishes one `Manual` message for each pair of thrusters. Strafing and turning share a pair: the
product of the two values tells them apart, so that a poll says something about one of them only,
or stops both.

`tracks_iff` says for which sequences of polls the last messages are those that the axes stand for.
A `float` and a `double` are rational numbers, without rounding, and an `int` is an integer.
-/

namespace Guillemot.Console

open Motion (HighLevelControl)

/-! ## Data -/

/-- `JOYSTICK_MAX_VALUE`. -/
def joystickMaxValue : ℤ := 32767

/-- `MAXIMUM_DEPTH`. -/
def maximumDepth : ℚ := 14

/-- `MOTOR_LEFT_DRIVE | MOTOR_RIGHT_DRIVE`. -/
def motorDrive : UInt8 := 0x01 ||| 0x02

/-- `MOTOR_FRONT_DEPTH | MOTOR_REAR_DEPTH`. -/
def motorDepth : UInt8 := 0x04 ||| 0x08

/-- `MOTOR_FRONT_TURN | MOTOR_REAR_TURN`. -/
def motorTurn : UInt8 := 0x10 ||| 0x20

/-- What a poll finds: the axes, the two buttons of the torpedoes, and the check box of the depth.
-/
structure Reading where
  xAxis : ℤ
  yAxis : ℤ
  twistAxis : ℤ
  throttleAxis : ℤ
  button2 : Bool
  button3 : Bool
  depthCheckBox : Bool
deriving DecidableEq, Repr

/-- The fields of the console that a poll uses. -/
structure Fields where
  lastXAxisValue : ℤ
  lastYAxisValue : ℤ
  lastThrottleValue : ℤ
  lastTwistValue : ℤ
  rightThrustPercentage : ℚ
  leftThrustPercentage : ℚ
deriving DecidableEq, Repr

/-- The initial values. -/
def Fields.init : Fields := ⟨0, 0, 0, 0, 1, 1⟩

/-- The mask and the values of a poll. -/
structure Thrust where
  motorMask : UInt8
  leftDriveValue : ℚ
  rightDriveValue : ℚ
  frontTurnValue : ℚ
  rearTurnValue : ℚ
  frontDepthValue : ℚ
  rearDepthValue : ℚ
deriving DecidableEq, Repr

/-- What a poll publishes: on `Torpedo_Launch` and on `High_Level_Motion`. -/
inductive Published where
  | torpedo (data : ℕ)
  | motion (msg : HighLevelControl)
deriving DecidableEq, Repr

/-! ## `sendMotorSpeedMsg` -/

/-- A `Manual` message. -/
def manual (direction : Motion.Direction) (value : ℚ) : Published :=
  .motion ⟨direction, .manual, value⟩

/-- `sendMotorSpeedMsg`. -/
def sendMotorSpeedMsg (t : Thrust) : List Published :=
  (if t.motorMask &&& motorDrive ≠ 0 then [manual .forward t.leftDriveValue] else []) ++
  (if t.motorMask &&& motorDepth ≠ 0 then [manual .depth t.frontDepthValue] else []) ++
  (if t.motorMask &&& motorTurn ≠ 0 then
    let pre := t.frontTurnValue * t.rearTurnValue
    if pre > 0 then [manual .turn t.frontTurnValue]
    else if pre < 0 then [manual .strafe t.frontTurnValue]
    else [manual .turn 0, manual .strafe 0]
  else [])

/-! ## `readJoystickInput` -/

/-- The state of a poll. -/
structure Poll where
  fields : Fields
  thrust : Thrust
  published : List Published
deriving DecidableEq, Repr

/-- The share of its range that an axis is moved by. -/
def speed (axis : ℤ) : ℚ := |axis| / joystickMaxValue

/-- The torpedo that a button fires. -/
def fireTorpedo (r : Reading) : List Published :=
  if r.button2 then [.torpedo 0] else if r.button3 then [.torpedo 1] else []

/-- The beginning of a poll. -/
def Poll.start (s : Fields) (r : Reading) : Poll := ⟨s, ⟨0, 0, 0, 0, 0, 0, 0⟩, fireTorpedo r⟩

/-- Strafe. -/
def Poll.strafe (p : Poll) (currentXAxis : ℤ) : Poll :=
  if p.fields.lastXAxisValue ≠ currentXAxis then
    let turnSpeed := speed currentXAxis
    let (front, rear) :=
      if currentXAxis > 0 then (turnSpeed * -1, turnSpeed)
      else if currentXAxis < 0 then (turnSpeed, turnSpeed * -1)
      else (p.thrust.frontTurnValue, p.thrust.rearTurnValue)
    { p with
      fields := { p.fields with lastXAxisValue := currentXAxis }
      thrust := { p.thrust with
        frontTurnValue := front
        rearTurnValue := rear
        motorMask := p.thrust.motorMask ||| motorTurn } }
  else p

/-- Move forward and backwards. -/
def Poll.drive (p : Poll) (currentYAxis : ℤ) : Poll :=
  if p.fields.lastYAxisValue ≠ currentYAxis then
    let thrusterSpeed := speed currentYAxis
    let (left, right) :=
      if currentYAxis < 0 then
        (thrusterSpeed * p.fields.leftThrustPercentage,
          thrusterSpeed * p.fields.rightThrustPercentage)
      else if currentYAxis > 0 then
        (thrusterSpeed * -1 * p.fields.leftThrustPercentage,
          thrusterSpeed * -1 * p.fields.rightThrustPercentage)
      else (p.thrust.leftDriveValue, p.thrust.rightDriveValue)
    { p with
      fields := { p.fields with lastYAxisValue := currentYAxis }
      thrust := { p.thrust with
        leftDriveValue := left
        rightDriveValue := right
        motorMask := p.thrust.motorMask ||| motorDrive } }
  else p

/-- Turn. -/
def Poll.turn (p : Poll) (currentTwistAxis : ℤ) : Poll :=
  if p.fields.lastTwistValue ≠ currentTwistAxis then
    let thrusterSpeed := speed currentTwistAxis
    let value := if currentTwistAxis ≥ 0 then thrusterSpeed else thrusterSpeed * -1
    { p with
      fields := { p.fields with lastTwistValue := currentTwistAxis }
      thrust := { p.thrust with
        frontTurnValue := value
        rearTurnValue := value
        motorMask := p.thrust.motorMask ||| motorTurn } }
  else p

/-- Submerge and surface. -/
def Poll.submerge (p : Poll) (currentThrottleAxis : ℤ) (depthCheckBox : Bool) : Poll :=
  if p.fields.lastThrottleValue ≠ currentThrottleAxis then
    let fields := { p.fields with lastThrottleValue := currentThrottleAxis }
    if depthCheckBox then
      let desiredDepth := maximumDepth *
        ((currentThrottleAxis + joystickMaxValue : ℤ) / (joystickMaxValue * 2 : ℤ))
      { p with
        fields := fields
        published := p.published ++ [.motion ⟨.depth, .command, desiredDepth⟩] }
    else
      let thrusterSpeed := speed currentThrottleAxis
      let (front, rear) :=
        if currentThrottleAxis < 0 then (thrusterSpeed, thrusterSpeed)
        else if currentThrottleAxis > 0 then (thrusterSpeed * -1, thrusterSpeed * -1)
        else (p.thrust.frontDepthValue, p.thrust.rearDepthValue)
      { p with
        fields := fields
        thrust := { p.thrust with
          frontDepthValue := front
          rearDepthValue := rear
          motorMask := p.thrust.motorMask ||| motorDepth } }
  else p

/-- A poll, up to its last axis. -/
def Poll.read (s : Fields) (r : Reading) : Poll :=
  ((((Poll.start s r).strafe r.xAxis).drive r.yAxis).turn r.twistAxis).submerge r.throttleAxis
    r.depthCheckBox

/-- `readJoystickInput`: the fields that it leaves and what it publishes. -/
def readJoystickInput (s : Fields) (r : Reading) : Fields × List Published :=
  let p := Poll.read s r
  (p.fields, p.published ++ if p.thrust.motorMask ≠ 0 then sendMotorSpeedMsg p.thrust else [])

/-! ## What a poll publishes -/

/-- The value that a position of an axis stands for. -/
def share (axis : ℤ) : ℚ := axis / joystickMaxValue

theorem share_zero : share 0 = 0 := by simp [share]

theorem share_neg (axis : ℤ) : share (-axis) = -share axis := by
  rw [share, share, Int.cast_neg, neg_div]

theorem speed_of_nonneg {axis : ℤ} (h : 0 ≤ axis) : speed axis = share axis := by
  rw [speed, share, abs_of_nonneg h]

theorem speed_of_neg {axis : ℤ} (h : axis < 0) : speed axis = -share axis := by
  rw [speed, abs_of_neg h, ← share, share_neg]

theorem strafe_spec {p : Poll} (hfront : p.thrust.frontTurnValue = 0)
    (hrear : p.thrust.rearTurnValue = 0) (x : ℤ) :
    p.strafe x = { p with
      fields := { p.fields with lastXAxisValue := x }
      thrust := { p.thrust with
        frontTurnValue := if p.fields.lastXAxisValue ≠ x then -share x
          else p.thrust.frontTurnValue
        rearTurnValue := if p.fields.lastXAxisValue ≠ x then share x
          else p.thrust.rearTurnValue
        motorMask := p.thrust.motorMask |||
          if p.fields.lastXAxisValue ≠ x then motorTurn else 0 } } := by
  obtain ⟨fields, thrust, published⟩ := p
  simp only at hfront hrear
  unfold Poll.strafe
  by_cases h : fields.lastXAxisValue = x
  · subst h
    simp
  · rcases lt_trichotomy x 0 with hx | rfl | hx
    · simp [h, hx, hx.not_gt, speed_of_neg hx]
    · simp [h, hfront, hrear, share_zero]
    · simp [h, hx, speed_of_nonneg hx.le]

theorem drive_spec {p : Poll} (hleft : p.thrust.leftDriveValue = 0)
    (hright : p.thrust.rightDriveValue = 0) (hpercent : p.fields.leftThrustPercentage = 1)
    (hpercent' : p.fields.rightThrustPercentage = 1) (y : ℤ) :
    p.drive y = { p with
      fields := { p.fields with lastYAxisValue := y }
      thrust := { p.thrust with
        leftDriveValue := if p.fields.lastYAxisValue ≠ y then -share y
          else p.thrust.leftDriveValue
        rightDriveValue := if p.fields.lastYAxisValue ≠ y then -share y
          else p.thrust.rightDriveValue
        motorMask := p.thrust.motorMask |||
          if p.fields.lastYAxisValue ≠ y then motorDrive else 0 } } := by
  obtain ⟨fields, thrust, published⟩ := p
  simp only at hleft hright hpercent hpercent'
  unfold Poll.drive
  by_cases h : fields.lastYAxisValue = y
  · subst h
    simp
  · rcases lt_trichotomy y 0 with hy | rfl | hy
    · simp [h, hy, hpercent, hpercent', speed_of_neg hy]
    · simp [h, hleft, hright, share_zero]
    · simp [h, hy, hy.not_gt, hpercent, hpercent', speed_of_nonneg hy.le]

theorem turn_spec (p : Poll) (twist : ℤ) :
    p.turn twist = { p with
      fields := { p.fields with lastTwistValue := twist }
      thrust := { p.thrust with
        frontTurnValue := if p.fields.lastTwistValue ≠ twist then share twist
          else p.thrust.frontTurnValue
        rearTurnValue := if p.fields.lastTwistValue ≠ twist then share twist
          else p.thrust.rearTurnValue
        motorMask := p.thrust.motorMask |||
          if p.fields.lastTwistValue ≠ twist then motorTurn else 0 } } := by
  unfold Poll.turn
  by_cases h : p.fields.lastTwistValue = twist
  · subst h
    simp
  · rcases lt_or_ge twist 0 with ht | ht
    · simp [h, ht.not_ge, speed_of_neg ht]
    · simp [h, ht, speed_of_nonneg ht]

theorem submerge_spec {p : Poll} (hfront : p.thrust.frontDepthValue = 0)
    (hrear : p.thrust.rearDepthValue = 0) (throttle : ℤ) :
    p.submerge throttle false = { p with
      fields := { p.fields with lastThrottleValue := throttle }
      thrust := { p.thrust with
        frontDepthValue := if p.fields.lastThrottleValue ≠ throttle then -share throttle
          else p.thrust.frontDepthValue
        rearDepthValue := if p.fields.lastThrottleValue ≠ throttle then -share throttle
          else p.thrust.rearDepthValue
        motorMask := p.thrust.motorMask |||
          if p.fields.lastThrottleValue ≠ throttle then motorDepth else 0 } } := by
  obtain ⟨fields, thrust, published⟩ := p
  simp only at hfront hrear
  unfold Poll.submerge
  by_cases h : fields.lastThrottleValue = throttle
  · subst h
    simp
  · rcases lt_trichotomy throttle 0 with ht | rfl | ht
    · simp [h, ht, speed_of_neg ht]
    · simp [h, hfront, hrear, share_zero]
    · simp [h, ht, ht.not_gt, speed_of_nonneg ht.le]

/-- The mask that some changes of the axes leave. -/
def mask (x y twist throttle : Bool) : UInt8 :=
  (((0 ||| if x then motorTurn else 0) ||| if y then motorDrive else 0) |||
    if twist then motorTurn else 0) ||| if throttle then motorDepth else 0

theorem mask_drive : ∀ x y twist throttle, mask x y twist throttle &&& motorDrive ≠ 0 ↔ y := by
  decide

theorem mask_depth :
    ∀ x y twist throttle, mask x y twist throttle &&& motorDepth ≠ 0 ↔ throttle := by
  decide

theorem mask_turn :
    ∀ x y twist throttle, mask x y twist throttle &&& motorTurn ≠ 0 ↔ (x || twist) := by
  decide

theorem mask_ne_zero :
    ∀ x y twist throttle, mask x y twist throttle ≠ 0 ↔ (x || y || twist || throttle) := by
  decide

/-- The mask and the values at the end of a poll without the check box of the depth. -/
def Reading.thrust (r : Reading) (s : Fields) : Thrust where
  motorMask := mask (s.lastXAxisValue ≠ r.xAxis) (s.lastYAxisValue ≠ r.yAxis)
    (s.lastTwistValue ≠ r.twistAxis) (s.lastThrottleValue ≠ r.throttleAxis)
  leftDriveValue := if s.lastYAxisValue ≠ r.yAxis then -share r.yAxis else 0
  rightDriveValue := if s.lastYAxisValue ≠ r.yAxis then -share r.yAxis else 0
  frontTurnValue := if s.lastTwistValue ≠ r.twistAxis then share r.twistAxis
    else if s.lastXAxisValue ≠ r.xAxis then -share r.xAxis else 0
  rearTurnValue := if s.lastTwistValue ≠ r.twistAxis then share r.twistAxis
    else if s.lastXAxisValue ≠ r.xAxis then share r.xAxis else 0
  frontDepthValue := if s.lastThrottleValue ≠ r.throttleAxis then -share r.throttleAxis else 0
  rearDepthValue := if s.lastThrottleValue ≠ r.throttleAxis then -share r.throttleAxis else 0

theorem read_spec {s : Fields} (hleft : s.leftThrustPercentage = 1)
    (hright : s.rightThrustPercentage = 1) {r : Reading} (hr : r.depthCheckBox = false) :
    Poll.read s r = ⟨{ s with
      lastXAxisValue := r.xAxis
      lastYAxisValue := r.yAxis
      lastThrottleValue := r.throttleAxis
      lastTwistValue := r.twistAxis }, r.thrust s, fireTorpedo r⟩ := by
  rw [Poll.read, hr, strafe_spec rfl rfl, drive_spec rfl rfl hleft hright, turn_spec,
    submerge_spec rfl rfl]
  simp only [Poll.start, Reading.thrust, mask, decide_eq_true_eq]
  congr!

/-- What is published for the thrusters that strafe and turn. -/
def Reading.horizontal (r : Reading) (s : Fields) : List Published :=
  if s.lastTwistValue ≠ r.twistAxis then
    if r.twistAxis = 0 then [manual .turn 0, manual .strafe 0]
    else [manual .turn (share r.twistAxis)]
  else if s.lastXAxisValue ≠ r.xAxis then
    if r.xAxis = 0 then [manual .turn 0, manual .strafe 0]
    else [manual .strafe (-share r.xAxis)]
  else []

/-- What is published for the other thrusters. -/
def Reading.others (r : Reading) (s : Fields) : List Published :=
  (if s.lastYAxisValue ≠ r.yAxis then [manual .forward (-share r.yAxis)] else []) ++
  (if s.lastThrottleValue ≠ r.throttleAxis then [manual .depth (-share r.throttleAxis)] else [])

theorem share_eq_zero {axis : ℤ} : share axis = 0 ↔ axis = 0 := by
  rw [share, div_eq_zero_iff, Int.cast_eq_zero, or_iff_left (by decide +kernel)]

theorem sendMotorSpeedMsg_thrust (r : Reading) (s : Fields) :
    sendMotorSpeedMsg (r.thrust s) = r.others s ++ r.horizontal s := by
  unfold sendMotorSpeedMsg Reading.others Reading.horizontal
  simp only [Reading.thrust, mask_drive, mask_depth, mask_turn, Bool.or_eq_true, decide_eq_true_eq]
  refine congrArg₂ _ (by split_ifs <;> rfl) ?_
  -- the sign of the product tells a turn from a strafe
  by_cases ht : s.lastTwistValue = r.twistAxis
  · by_cases hx : s.lastXAxisValue = r.xAxis
    · simp [ht, hx]
    by_cases hzero : r.xAxis = 0
    · simp only [hzero] at hx ⊢
      simp [ht, hx, share_zero]
    · have hshare := share_eq_zero.not.mpr hzero
      have hpos := mul_self_pos.mpr hshare
      simp [ht, hx, hzero, hshare, hpos.not_gt]
  · by_cases hzero : r.twistAxis = 0
    · simp only [hzero] at ht ⊢
      simp [ht, share_zero]
    · have hpos := mul_self_pos.mpr (share_eq_zero.not.mpr hzero)
      simp [ht, hzero, hpos]

/-- What a poll leaves and publishes without the check box of the depth. -/
theorem readJoystickInput_spec {s : Fields} (hleft : s.leftThrustPercentage = 1)
    (hright : s.rightThrustPercentage = 1) {r : Reading} (hr : r.depthCheckBox = false) :
    readJoystickInput s r = ({ s with
      lastXAxisValue := r.xAxis
      lastYAxisValue := r.yAxis
      lastThrottleValue := r.throttleAxis
      lastTwistValue := r.twistAxis }, fireTorpedo r ++ (r.others s ++ r.horizontal s)) := by
  rw [readJoystickInput, read_spec hleft hright hr]
  simp only [sendMotorSpeedMsg_thrust]
  by_cases hmask : (r.thrust s).motorMask = 0
  · -- without a change there is no message
    have hnone := (mask_ne_zero _ _ _ _).not.mp (not_not.mpr hmask)
    simp only [Bool.or_eq_true, decide_eq_true_eq, not_or, not_not] at hnone
    obtain ⟨⟨⟨hx, hy⟩, ht⟩, hthrottle⟩ := hnone
    simp [hmask, Reading.others, Reading.horizontal, hx, hy, ht, hthrottle]
  · rw [if_pos hmask]

/-! ## Polls, one after the other -/

/-- The console with all that it has published. -/
structure Session where
  fields : Fields
  log : List Published
deriving DecidableEq, Repr

/-- The start. -/
def Session.init : Session := ⟨.init, []⟩

/-- A poll. -/
def Session.poll (s : Session) (r : Reading) : Session :=
  ⟨(readJoystickInput s.fields r).1, s.log ++ (readJoystickInput s.fields r).2⟩

/-- The value of a `Manual` message of a direction. -/
def Published.manual? (direction : Motion.Direction) : Published → Option ℚ
  | .motion msg =>
    if msg.direction = direction ∧ msg.motionType = .manual then some msg.value else none
  | .torpedo _ => none

/-- The last `Manual` value of a direction, which is zero at rest. -/
def lastManual (direction : Motion.Direction) (log : List Published) : ℚ :=
  (log.filterMap (Published.manual? direction)).getLast?.getD 0

/-- The last messages are those that the axes stand for. -/
structure Tracks (r : Reading) (s : Session) : Prop where
  forward : lastManual .forward s.log = -share r.yAxis
  turn : lastManual .turn s.log = share r.twistAxis
  strafe : lastManual .strafe s.log = -share r.xAxis
  depth : lastManual .depth s.log = -share r.throttleAxis

/-- Two polls between which no change hides the command of another axis: with the twist axis moved
away from its rest position, the X axis has stayed; with the twist axis back at rest, the X axis is
at rest, too; and with the X axis alone back at rest, the twist axis is at rest. -/
def Smooth (before r : Reading) : Prop :=
  if before.twistAxis ≠ r.twistAxis then
    if r.twistAxis = 0 then r.xAxis = 0 else before.xAxis = r.xAxis
  else before.xAxis ≠ r.xAxis → r.xAxis = 0 → r.twistAxis = 0

instance (before r : Reading) : Decidable (Smooth before r) := by
  unfold Smooth
  infer_instance

/-- The fields stand for the last poll. -/
def Fields.of (r : Reading) : Fields :=
  ⟨r.xAxis, r.yAxis, r.throttleAxis, r.twistAxis, 1, 1⟩

theorem lastManual_append (direction : Motion.Direction) (log more : List Published) :
    lastManual direction (log ++ more) =
      ((more.filterMap (Published.manual? direction)).getLast?).getD
        (lastManual direction log) := by
  unfold lastManual
  rw [List.filterMap_append, List.getLast?_append]
  cases (more.filterMap (Published.manual? direction)).getLast? <;> rfl

theorem manual_manual? (direction direction' : Motion.Direction) (value : ℚ) :
    (manual direction value).manual? direction' =
      if direction = direction' then some value else none := by
  simp [manual, Published.manual?]

/-- A poll without the check box of the depth. -/
theorem poll_spec {s : Session} {before r : Reading} (hs : s.fields = .of before)
    (hr : r.depthCheckBox = false) :
    s.poll r = ⟨.of r, s.log ++ (fireTorpedo r ++
      (r.others (.of before) ++ r.horizontal (.of before)))⟩ := by
  rw [Session.poll, hs, readJoystickInput_spec rfl rfl hr]
  rfl

/-- What a poll does to the last values. -/
theorem lastManual_poll {s : Session} {before r : Reading} (hs : s.fields = .of before)
    (hr : r.depthCheckBox = false) (direction : Motion.Direction) :
    lastManual direction (s.poll r).log =
      (((r.others (.of before) ++ r.horizontal (.of before)).filterMap
        (Published.manual? direction)).getLast?).getD (lastManual direction s.log) := by
  have hfire : (fireTorpedo r).filterMap (Published.manual? direction) = [] := by
    unfold fireTorpedo
    split_ifs <;> rfl
  rw [poll_spec hs hr, lastManual_append, List.filterMap_append, hfire, List.nil_append]

/-- The thrusters that strafe and turn do nothing else. -/
theorem filterMap_horizontal {direction : Motion.Direction} (hturn : direction ≠ .turn)
    (hstrafe : direction ≠ .strafe) (r : Reading) (s : Fields) :
    (r.horizontal s).filterMap (Published.manual? direction) = [] := by
  unfold Reading.horizontal
  split_ifs <;> simp [manual_manual?, hturn.symm, hstrafe.symm]

/-- The other thrusters neither strafe nor turn. -/
theorem filterMap_others {direction : Motion.Direction} (hforward : direction ≠ .forward)
    (hdepth : direction ≠ .depth) (r : Reading) (s : Fields) :
    (r.others s).filterMap (Published.manual? direction) = [] := by
  unfold Reading.others
  split_ifs <;> simp [manual_manual?, hforward.symm, hdepth.symm]

theorem lastManual_forward {s : Session} {before r : Reading} (hs : s.fields = .of before)
    (hr : r.depthCheckBox = false) (h : lastManual .forward s.log = -share before.yAxis) :
    lastManual .forward (s.poll r).log = -share r.yAxis := by
  rw [lastManual_poll hs hr, List.filterMap_append, filterMap_horizontal (by simp) (by simp),
    List.append_nil, Reading.others, Fields.of, h]
  by_cases hy : before.yAxis = r.yAxis
  · split_ifs <;> simp [manual_manual?, hy]
  · split_ifs <;> simp [manual_manual?]

theorem lastManual_depth {s : Session} {before r : Reading} (hs : s.fields = .of before)
    (hr : r.depthCheckBox = false) (h : lastManual .depth s.log = -share before.throttleAxis) :
    lastManual .depth (s.poll r).log = -share r.throttleAxis := by
  rw [lastManual_poll hs hr, List.filterMap_append, filterMap_horizontal (by simp) (by simp),
    List.append_nil, Reading.others, Fields.of, h]
  by_cases ht : before.throttleAxis = r.throttleAxis
  · split_ifs <;> simp [manual_manual?, ht]
  · split_ifs <;> simp [manual_manual?]

/-- The last value of the thrusters that strafe and turn. A change of the twist axis goes before one
of the X axis, and an axis back at rest stops both. -/
theorem lastManual_sideways {direction : Motion.Direction} (hforward : direction ≠ .forward)
    (hdepth : direction ≠ .depth) {s : Session} {before r : Reading}
    (hs : s.fields = .of before) (hr : r.depthCheckBox = false) :
    lastManual direction (s.poll r).log =
      if before.twistAxis ≠ r.twistAxis then
        if r.twistAxis = 0 then
          if direction = .turn ∨ direction = .strafe then 0 else lastManual direction s.log
        else if direction = .turn then share r.twistAxis else lastManual direction s.log
      else if before.xAxis ≠ r.xAxis then
        if r.xAxis = 0 then
          if direction = .turn ∨ direction = .strafe then 0 else lastManual direction s.log
        else if direction = .strafe then -share r.xAxis else lastManual direction s.log
      else lastManual direction s.log := by
  have hstop : (([manual .turn 0, manual .strafe 0].filterMap
      (Published.manual? direction)).getLast?).getD (lastManual direction s.log) =
      if direction = .turn ∨ direction = .strafe then 0 else lastManual direction s.log := by
    cases direction <;> simp [manual_manual?]
  have hone (single : Motion.Direction) (value : ℚ) : (([manual single value].filterMap
      (Published.manual? direction)).getLast?).getD (lastManual direction s.log) =
      if direction = single then value else lastManual direction s.log := by
    by_cases hsingle : direction = single
    · simp [manual_manual?, hsingle]
    · simp [manual_manual?, hsingle, Ne.symm hsingle]
  rw [lastManual_poll hs hr, List.filterMap_append, filterMap_others hforward hdepth,
    List.nil_append, Reading.horizontal, Fields.of, ← hstop, ← hone .turn, ← hone .strafe]
  split_ifs <;> rfl

/-- A change of the twist axis sets the turn, and the X axis back at rest ends it. -/
theorem lastManual_turn {s : Session} {before r : Reading} (hs : s.fields = .of before)
    (hr : r.depthCheckBox = false) :
    lastManual .turn (s.poll r).log =
      if before.twistAxis ≠ r.twistAxis then share r.twistAxis
      else if before.xAxis ≠ r.xAxis ∧ r.xAxis = 0 then 0
      else lastManual .turn s.log := by
  rw [lastManual_sideways (by simp) (by simp) hs hr, ite_and]
  split_ifs <;> simp_all [share_zero]

/-- A change of the X axis alone sets the strafe, and the twist axis back at rest ends it. -/
theorem lastManual_strafe {s : Session} {before r : Reading} (hs : s.fields = .of before)
    (hr : r.depthCheckBox = false) :
    lastManual .strafe (s.poll r).log =
      if before.twistAxis ≠ r.twistAxis then
        if r.twistAxis = 0 then 0 else lastManual .strafe s.log
      else if before.xAxis ≠ r.xAxis then -share r.xAxis
      else lastManual .strafe s.log := by
  rw [lastManual_sideways (by simp) (by simp) hs hr]
  split_ifs <;> simp_all [share_zero]

theorem share_inj {a b : ℤ} : share a = share b ↔ a = b := by
  rw [← sub_eq_zero, ← sub_eq_zero (a := a), ← share_eq_zero]
  simp [share, sub_div]

/-- A poll keeps the last values those that the axes stand for, if it is smooth, and no other poll
does. -/
theorem tracks_poll {s : Session} {before r : Reading} (hs : s.fields = .of before)
    (hr : r.depthCheckBox = false) (h : Tracks before s) :
    Tracks r (s.poll r) ↔ Smooth before r := by
  have hturn := lastManual_turn hs hr
  have hstrafe := lastManual_strafe hs hr
  rw [h.turn] at hturn
  rw [h.strafe] at hstrafe
  have hboth : Tracks r (s.poll r) ↔ lastManual .turn (s.poll r).log = share r.twistAxis ∧
      lastManual .strafe (s.poll r).log = -share r.xAxis :=
    ⟨fun ht => ⟨ht.turn, ht.strafe⟩, fun ⟨ht, hx⟩ =>
      ⟨lastManual_forward hs hr h.forward, ht, hx, lastManual_depth hs hr h.depth⟩⟩
  rw [hboth, hturn, hstrafe, Smooth]
  by_cases ht : before.twistAxis = r.twistAxis
  · simp only [ne_eq, ht, not_true_eq_false, if_false]
    by_cases hx : before.xAxis = r.xAxis
    · simp [hx]
    · by_cases hzero : r.xAxis = 0
      · simp only [hx, not_false_eq_true, true_and, if_true, forall_const, and_true]
        rw [if_pos hzero, eq_comm, share_eq_zero]
        simp [hzero]
      · simp [hx, hzero]
  · simp only [ne_eq, ht, not_false_eq_true, if_true, true_and]
    split_ifs with hzero
    · rw [eq_comm, neg_eq_zero, share_eq_zero]
    · rw [neg_inj, share_inj]

/-- No axis is moved. -/
def Reading.rest : Reading := ⟨0, 0, 0, 0, false, false, false⟩

/-- The last messages stand for the axes after every poll, from a state in which they do, exactly
when all polls are smooth. -/
theorem tracks_polls {s : Session} {before : Reading} (hs : s.fields = .of before)
    (h : Tracks before s) {readings : List Reading} (hr : ∀ r ∈ readings, r.depthCheckBox = false) :
    (∀ earlier r later, readings = earlier ++ r :: later →
        Tracks r ((earlier ++ [r]).foldl Session.poll s)) ↔
      List.IsChain Smooth (before :: readings) := by
  induction readings generalizing s before with
  | nil => simp
  | cons r readings ih =>
    have hrest : ∀ r' ∈ readings, r'.depthCheckBox = false :=
      fun r' hr' => hr r' (List.mem_cons_of_mem _ hr')
    have hpoll := tracks_poll hs (hr r List.mem_cons_self) h
    have hfields : (s.poll r).fields = .of r := by rw [poll_spec hs (hr r List.mem_cons_self)]
    rw [List.isChain_cons_cons, ← hpoll]
    constructor
    · intro hall
      have htracks : Tracks r (s.poll r) := hall [] r readings rfl
      refine ⟨htracks, (ih hfields htracks hrest).mp fun earlier r' later heq => ?_⟩
      exact hall (r :: earlier) r' later (congrArg _ heq)
    · rintro ⟨htracks, hchain⟩ earlier r' later heq
      cases earlier with
      | nil =>
        obtain ⟨rfl, -⟩ := List.cons.inj heq
        exact htracks
      | cons r'' earlier =>
        obtain ⟨rfl, htail⟩ := List.cons.inj heq
        exact (ih hfields htracks hrest).mpr hchain earlier r' later htail

/-- For every sequence of polls without the check box of the depth: after each of them the last
`Manual` values of the four directions are those that the axes stand for, exactly when every poll is
smooth, the first one compared with the axes at rest. -/
theorem joystick_tracks_iff {readings : List Reading}
    (hr : ∀ r ∈ readings, r.depthCheckBox = false) :
    (∀ earlier r later, readings = earlier ++ r :: later →
        Tracks r ((earlier ++ [r]).foldl Session.poll .init)) ↔
      List.IsChain Smooth (.rest :: readings) := by
  refine tracks_polls rfl ⟨?_, ?_, ?_, ?_⟩ hr
  all_goals simp [Session.init, lastManual, Reading.rest, share_zero]

/-- Forward and to the right, and back to rest. -/
theorem joystick_tracks_strafe :
    Tracks .rest
      ([⟨32767, -5, 0, 0, false, false, false⟩, .rest].foldl Session.poll .init) := by
  have hsmooth : List.IsChain Smooth
      [.rest, ⟨32767, -5, 0, 0, false, false, false⟩, .rest] := by decide
  exact (joystick_tracks_iff (by decide)).mpr hsmooth [_] .rest [] rfl

/-- The X axis is released while the twist axis is held: the turn is over. -/
theorem joystick_turn_lost :
    ¬ ∀ readings : List Reading, (∀ r ∈ readings, r.depthCheckBox = false) →
      ∀ earlier r later, readings = earlier ++ r :: later →
        Tracks r ((earlier ++ [r]).foldl Session.poll .init) := by
  intro h
  have htracks := h [⟨0, 0, 32767, 0, false, false, false⟩,
    ⟨32767, 0, 32767, 0, false, false, false⟩, ⟨0, 0, 32767, 0, false, false, false⟩] (by decide)
    [_, _] _ [] rfl
  exact absurd htracks.turn (by decide +kernel)

end Guillemot.Console
