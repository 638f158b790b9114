import Guillemot.Library.Truncation
import Mathlib.Data.Rat.Floor

/-!
# The node between tasks and thrusters

`HighLevelControl.cpp`: what `commandCallback` and `CenterOnPointCallback` store, and what the three
functions of the main loop send. A `float` and a `double` are rational numbers, without rounding,
and an `int` is an integer; a number whose integer part is no `int` is undefined in the source.
`ManagePivotThrusters` is not called, and the text that an unknown message prints is left out.

A task's depth and heading are not acted on here. They wait in `DepthCommand` and `TurnCommand`, in
`AUTOMATIC` mode, until the loop hands them to a controller (`Axis.pending`).
-/

namespace Guillemot.Motion

/-! ## The node -/

/-- `Mode`. -/
inductive Mode where
  | manual
  | automatic
deriving DecidableEq, Repr

/-- The texts that `Direction` is compared with; `other` is any other text. -/
inductive Direction where
  | forward
  | turn
  | strafe
  | depth
  | yaw
  | pitch
  | pivot
  | other
deriving DecidableEq, Repr

/-- The texts that `MotionType` is compared with; `other` is any other text. -/
inductive MotionType where
  | command
  | manual
  | other
deriving DecidableEq, Repr

/-- A message on `High_Level_Motion`. -/
structure HighLevelControl where
  direction : Direction
  motionType : MotionType
  value : ℚ
deriving DecidableEq, Repr

/-- A message on `Motor_Control`. -/
structure MotorMessage where
  mask : ℕ
  left : ℤ
  right : ℤ
  frontDepth : ℤ
  rearDepth : ℤ
  frontTurn : ℤ
  rearTurn : ℤ
deriving DecidableEq, Repr

/-- What the main loop publishes: on `Motor_Control`, `Target_Depth` and `Target_Heading`. -/
inductive Output where
  | motor (msg : MotorMessage)
  | targetDepth (input : ℚ)
  | targetHeading (input : ℚ)
deriving DecidableEq, Repr

/-- The three variables of one direction, such as `DepthMode`, `DepthSpeed` and `DepthCommand`. -/
structure Axis where
  mode : Mode
  speed : ℤ
  command : ℚ
deriving DecidableEq, Repr

/-- The variables of the node. -/
structure Controls where
  forward : Axis
  strafe : Axis
  turn : Axis
  depth : Axis
  yaw : Axis
  pitch : Axis
  pivot : Axis
  currentFwdRight : ℤ
  currentFwdLeft : ℤ
  currentTurnRear : ℤ
  currentTurnFront : ℤ
  currentDepthRear : ℤ
  currentDepthFront : ℤ
deriving DecidableEq, Repr

/-- The initial values of one direction. -/
def Axis.init : Axis := ⟨.manual, 0, 0⟩

/-- The initial values. -/
def Controls.init : Controls :=
  ⟨.init, .init, .init, .init, .init, .init, .init, 0, 0, 0, 0, 0, 0⟩

/-- `TARGET_ZERO`: the command of a direction whose command was handed on. -/
def targetZero : ℚ := -500

/-- `makeSpeed`. -/
def makeSpeed (percent : ℚ) : ℤ :=
  if |percent| < 1 / 100 then 0
  else
    let p := truncate (percent * (255 - 60))
    if p > 0 then p + 60 else p - 60

/-- `sanitize`. -/
def sanitize (speed : ℤ) : ℤ :=
  let speed := if speed ≥ 0 ∧ speed < 60 then 0 else if speed < 0 ∧ speed > -60 then 0 else speed
  if speed > 255 then 255 else if speed < -255 then -255 else speed

/-- What a message does to the variables of its direction. -/
def Axis.receive (a : Axis) (msg : HighLevelControl) : Axis :=
  match msg.motionType with
  | .command => { a with mode := .automatic, command := msg.value }
  | .manual => { a with mode := .manual, speed := makeSpeed msg.value }
  | .other => a

/-- `commandCallback`. A `Pivot` message has no `Command`. -/
def Controls.commandCallback (c : Controls) (msg : HighLevelControl) : Controls :=
  match msg.direction with
  | .forward => { c with forward := c.forward.receive msg }
  | .turn => { c with turn := c.turn.receive msg }
  | .strafe => { c with strafe := c.strafe.receive msg }
  | .depth => { c with depth := c.depth.receive msg }
  | .yaw => { c with yaw := c.yaw.receive msg }
  | .pitch => { c with pitch := c.pitch.receive msg }
  | .pivot => if msg.motionType = .manual then { c with pivot := c.pivot.receive msg } else c
  | .other => c

/-- `CenterOnPointCallback`. The turn is computed in integers. -/
def Controls.centerOnPointCallback (c : Controls) (x y : ℤ) : Controls :=
  { c with
    turn := { c.turn with mode := .automatic, command := (x * 60).tdiv 940 }
    depth := { c.depth with mode := .automatic, command := (40 - y) / 150 } }

/-- The command of a direction that waits for the main loop. -/
def Axis.pending (a : Axis) : Option ℚ :=
  if a.mode = .automatic ∧ a.command ≠ targetZero then some a.command else none

/-- The variables of a direction after its command was handed on. -/
def Axis.handOn (a : Axis) : Axis :=
  if a.mode = .automatic ∧ a.command ≠ targetZero then { a with command := targetZero } else a

/-- `CalcTurn`: a command goes out on `Target_Heading`. -/
def Controls.calcTurn (c : Controls) : Controls × List Output :=
  ({ c with turn := c.turn.handOn }, (c.turn.pending.map .targetHeading).toList)

/-- `CalcStrafe`. -/
def Controls.calcStrafe (c : Controls) : Controls :=
  if c.strafe.mode = .automatic then
    { c with strafe := { c.strafe with speed := makeSpeed c.strafe.command } }
  else c

/-- `CalcDepth`: a command goes out on `Target_Depth`. -/
def Controls.calcDepth (c : Controls) : Controls × List Output :=
  ({ c with depth := c.depth.handOn }, (c.depth.pending.map .targetDepth).toList)

/-- `CalcPitch`. -/
def Controls.calcPitch (c : Controls) : Controls :=
  if c.pitch.mode = .automatic then { c with pitch := { c.pitch with speed := 0 } } else c

/-- `LEFT_FWD_MULT`. -/
def leftFwdMult : ℚ := 1

/-- `REAR_TURN_MULT`. -/
def rearTurnMult : ℚ := 8928 / 10000

/-- `FRONT_TURN_MULT`. -/
def frontTurnMult : ℚ := 83 / 100

/-- `LEFT_DRIVE_BIT | RIGHT_DRIVE_BIT`. -/
def driveBits : ℕ := 0x01 ||| 0x02

/-- `FRONT_DEPTH_BIT | REAR_DEPTH_BIT`. -/
def depthBits : ℕ := 0x04 ||| 0x08

/-- `FRONT_TURN_BIT | REAR_TURN_BIT`. -/
def turnBits : ℕ := 0x10 ||| 0x20

/-- `ManageForwardThrusters`. -/
def Controls.manageForwardThrusters (c : Controls) : Controls × List Output :=
  let speed := sanitize
    (if c.forward.mode = .automatic then makeSpeed c.forward.command else c.forward.speed)
  let c := { c with forward := { c.forward with speed := speed } }
  if c.currentFwdLeft ≠ speed ∨ c.currentFwdRight ≠ speed then
    let left := truncate (leftFwdMult * speed)
    ({ c with currentFwdLeft := left, currentFwdRight := speed },
      [.motor ⟨driveBits, left, speed, 0, 0, 0, 0⟩])
  else (c, [])

/-- The speeds of the two turn thrusters that are sent, rear and front. -/
def turnSpeeds (rearThrust frontThrust : ℤ) : ℤ × ℤ :=
  if rearThrust < 0 then (rearThrust, truncate (frontThrust * frontTurnMult))
  else if frontThrust < 0 then (truncate (rearThrust * rearTurnMult), frontThrust)
  else (rearThrust, frontThrust)

/-- `ManageTurnThrusters`. -/
def Controls.manageTurnThrusters (c : Controls) : Controls × List Output :=
  let headings := c.calcTurn.2
  let c := c.calcTurn.1.calcStrafe
  let rearThrust := sanitize (c.turn.speed - c.strafe.speed)
  let frontThrust := sanitize (c.turn.speed + c.strafe.speed)
  if rearThrust ≠ c.currentTurnRear ∨ frontThrust ≠ c.currentTurnFront then
    let speeds := turnSpeeds rearThrust frontThrust
    ({ c with currentTurnRear := speeds.1, currentTurnFront := speeds.2 },
      headings ++ [.motor ⟨turnBits, 0, 0, 0, 0, speeds.2, speeds.1⟩])
  else (c, headings)

/-- `ManageDepthThrusters`. -/
def Controls.manageDepthThrusters (c : Controls) : Controls × List Output :=
  let depths := c.calcDepth.2
  let c := c.calcDepth.1.calcPitch
  let frontThrust := c.depth.speed + c.pitch.speed
  let rearThrust := c.depth.speed - c.pitch.speed
  if rearThrust ≠ c.currentDepthRear ∨ frontThrust ≠ c.currentDepthFront then
    ({ c with currentDepthRear := rearThrust, currentDepthFront := frontThrust },
      depths ++ [.motor ⟨depthBits, 0, 0, frontThrust, rearThrust, 0, 0⟩])
  else (c, depths)

/-- One round of the main loop, up to `spinOnce`. -/
def Controls.manage (c : Controls) : Controls × List Output :=
  let forward := c.manageForwardThrusters
  let turn := forward.1.manageTurnThrusters
  let depth := turn.1.manageDepthThrusters
  (depth.1, forward.2 ++ turn.2 ++ depth.2)

/-! ## Commands that wait -/

/-- A command that waits is the one that was stored. -/
theorem Axis.pending_eq_some {a : Axis} {v : ℚ} :
    a.pending = some v ↔ a.mode = .automatic ∧ a.command = v ∧ v ≠ targetZero := by
  unfold Axis.pending
  split_ifs with h
  · constructor
    · rintro ⟨⟩
      exact ⟨h.1, rfl, h.2⟩
    · rintro ⟨-, rfl, -⟩
      rfl
  · constructor
    · rintro ⟨⟩
    · rintro ⟨hmode, rfl, hv⟩
      exact absurd ⟨hmode, hv⟩ h

/-- A command that is handed on does not wait any longer. -/
theorem Axis.handOn_pending (a : Axis) : a.handOn.pending = none := by
  unfold Axis.handOn
  split_ifs with h
  · simp [Axis.pending]
  · simp [Axis.pending, h]

/-- What waits for a direction after a message for it: its value, if it is a command, and nothing
after a speed. -/
theorem Axis.receive_pending (a : Axis) (msg : HighLevelControl) :
    (a.receive msg).pending =
      match msg.motionType with
      | .command => if msg.value = targetZero then none else some msg.value
      | .manual => none
      | .other => a.pending := by
  unfold Axis.receive Axis.pending
  cases msg.motionType <;> simp

@[simp]
theorem commandCallback_depth (c : Controls) (msg : HighLevelControl) :
    (c.commandCallback msg).depth =
      if msg.direction = .depth then c.depth.receive msg else c.depth := by
  unfold Controls.commandCallback
  cases hd : msg.direction <;> simp
  split_ifs <;> rfl

@[simp]
theorem commandCallback_turn (c : Controls) (msg : HighLevelControl) :
    (c.commandCallback msg).turn =
      if msg.direction = .turn then c.turn.receive msg else c.turn := by
  unfold Controls.commandCallback
  cases hd : msg.direction <;> simp
  split_ifs <;> rfl

/-! ## What the main loop hands on -/

/-- The depth in what the main loop publishes. -/
def Output.depth? : Output → Option ℚ
  | .targetDepth input => some input
  | _ => none

/-- The heading in what the main loop publishes. -/
def Output.heading? : Output → Option ℚ
  | .targetHeading input => some input
  | _ => none

/-- The turn and the depth are not touched, and only motor messages are published. -/
theorem manageForwardThrusters_spec (c : Controls) :
    c.manageForwardThrusters.1.turn = c.turn ∧ c.manageForwardThrusters.1.depth = c.depth ∧
      c.manageForwardThrusters.2.filterMap Output.depth? = [] ∧
      c.manageForwardThrusters.2.filterMap Output.heading? = [] := by
  unfold Controls.manageForwardThrusters
  dsimp only
  split_ifs <;> exact ⟨rfl, rfl, rfl, rfl⟩

/-- The turn is handed on, and the depth is not touched. -/
theorem manageTurnThrusters_spec (c : Controls) :
    c.manageTurnThrusters.1.turn = c.turn.handOn ∧ c.manageTurnThrusters.1.depth = c.depth ∧
      c.manageTurnThrusters.2.filterMap Output.depth? = [] ∧
      c.manageTurnThrusters.2.filterMap Output.heading? = c.turn.pending.toList := by
  have hstrafe : ∀ d : Controls, d.calcStrafe.turn = d.turn ∧ d.calcStrafe.depth = d.depth := by
    intro d
    unfold Controls.calcStrafe
    split_ifs <;> exact ⟨rfl, rfl⟩
  obtain ⟨hturn, hdepth⟩ := hstrafe c.calcTurn.1
  have hout : c.calcTurn.2.filterMap Output.depth? = [] ∧
      c.calcTurn.2.filterMap Output.heading? = c.turn.pending.toList := by
    unfold Controls.calcTurn
    cases c.turn.pending <;> exact ⟨rfl, rfl⟩
  unfold Controls.manageTurnThrusters
  dsimp only
  split_ifs
  · exact ⟨hturn, hdepth, by simp [hout, Output.depth?], by simp [hout, Output.heading?]⟩
  · exact ⟨hturn, hdepth, hout⟩

/-- The depth is handed on, and the turn is not touched. -/
theorem manageDepthThrusters_spec (c : Controls) :
    c.manageDepthThrusters.1.turn = c.turn ∧ c.manageDepthThrusters.1.depth = c.depth.handOn ∧
      c.manageDepthThrusters.2.filterMap Output.depth? = c.depth.pending.toList ∧
      c.manageDepthThrusters.2.filterMap Output.heading? = [] := by
  have hpitch : ∀ d : Controls, d.calcPitch.turn = d.turn ∧ d.calcPitch.depth = d.depth := by
    intro d
    unfold Controls.calcPitch
    split_ifs <;> exact ⟨rfl, rfl⟩
  obtain ⟨hturn, hdepth⟩ := hpitch c.calcDepth.1
  have hout : c.calcDepth.2.filterMap Output.depth? = c.depth.pending.toList ∧
      c.calcDepth.2.filterMap Output.heading? = [] := by
    unfold Controls.calcDepth
    cases c.depth.pending <;> exact ⟨rfl, rfl⟩
  unfold Controls.manageDepthThrusters
  dsimp only
  split_ifs
  · exact ⟨hturn, hdepth, by simp [hout, Output.depth?], by simp [hout, Output.heading?]⟩
  · exact ⟨hturn, hdepth, hout⟩

/-- A round of the main loop hands on the turn and the depth that wait, and nothing else goes to the
controllers. -/
theorem manage_spec (c : Controls) :
    c.manage.1.turn = c.turn.handOn ∧ c.manage.1.depth = c.depth.handOn ∧
      c.manage.2.filterMap Output.depth? = c.depth.pending.toList ∧
      c.manage.2.filterMap Output.heading? = c.turn.pending.toList := by
  obtain ⟨hturn, hdepth, hdepths, hheadings⟩ := manageForwardThrusters_spec c
  obtain ⟨hturn', hdepth', hdepths', hheadings'⟩ :=
    manageTurnThrusters_spec c.manageForwardThrusters.1
  obtain ⟨hturn'', hdepth'', hdepths'', hheadings''⟩ :=
    manageDepthThrusters_spec c.manageForwardThrusters.1.manageTurnThrusters.1
  unfold Controls.manage
  simp only [List.filterMap_append]
  refine ⟨?_, ?_, ?_, ?_⟩
  · rw [hturn'', hturn', hturn]
  · rw [hdepth'', hdepth', hdepth]
  · rw [hdepths, hdepths', hdepths'', hdepth', hdepth]
    rfl
  · rw [hheadings, hheadings', hheadings'', hturn]
    simp

end Guillemot.Motion
