import Mathlib.Data.List.Induction
import Guillemot.Motor.HostRuns
import Guillemot.Motor.Slew

/-!
# The six thrusters

`main.cpp` of the motor controller node: three controllers with two motors each, and the callback
`motorMessage`, which remembers a value for each thruster and sets both speeds of every controller
that a message addresses. `targets_last_written` says that this amounts to a register for each
thruster that the last message with its bit has written.
-/

namespace Guillemot.Motor

open StopAndWait (Event)

/-! ## The node -/

/-- `LEFT_DRIVE_BIT`, and the bits of the other thrusters. -/
def leftDriveBit : UInt8 := 0x01

@[inherit_doc leftDriveBit]
def rightDriveBit : UInt8 := 0x02

@[inherit_doc leftDriveBit]
def frontDepthBit : UInt8 := 0x04

@[inherit_doc leftDriveBit]
def rearDepthBit : UInt8 := 0x08

@[inherit_doc leftDriveBit]
def frontTurnBit : UInt8 := 0x10

@[inherit_doc leftDriveBit]
def rearTurnBit : UInt8 := 0x20

/-- `SubMotorController::MotorMessage`. -/
structure MotorMessage where
  mask : UInt8
  left : Int16
  right : Int16
  frontDepth : Int16
  rearDepth : Int16
  frontTurn : Int16
  rearTurn : Int16
deriving DecidableEq

/-- The globals of the node, with the static variables of `motorMessage`. -/
structure Node where
  motorControllerDrive : Host
  motorControllerDepth : Host
  motorControllerTurn : Host
  curLDriveSpeed : ℤ
  curRDriveSpeed : ℤ
  curFDepthSpeed : ℤ
  curRDepthSpeed : ℤ
  curFTurnSpeed : ℤ
  curRTurnSpeed : ℤ
deriving DecidableEq

/-- The node when its loop starts. What the constructors of the controllers leave uninitialised is
that of the arguments. -/
def Node.new (drive depth turn : Host) : Node where
  motorControllerDrive := .new drive
  motorControllerDepth := .new depth
  motorControllerTurn := .new turn
  curLDriveSpeed := 0
  curRDriveSpeed := 0
  curFDepthSpeed := 0
  curRDepthSpeed := 0
  curFTurnSpeed := 0
  curRTurnSpeed := 0

/-- The static variables after a message. -/
def Node.remember (n : Node) (msg : MotorMessage) : Node :=
  { n with
    curLDriveSpeed := if msg.mask &&& leftDriveBit ≠ 0 then msg.left.toInt else n.curLDriveSpeed
    curRDriveSpeed := if msg.mask &&& rightDriveBit ≠ 0 then msg.right.toInt else n.curRDriveSpeed
    curFDepthSpeed :=
      if msg.mask &&& frontDepthBit ≠ 0 then msg.frontDepth.toInt else n.curFDepthSpeed
    curRDepthSpeed :=
      if msg.mask &&& rearDepthBit ≠ 0 then msg.rearDepth.toInt else n.curRDepthSpeed
    curFTurnSpeed := if msg.mask &&& frontTurnBit ≠ 0 then msg.frontTurn.toInt else n.curFTurnSpeed
    curRTurnSpeed := if msg.mask &&& rearTurnBit ≠ 0 then msg.rearTurn.toInt else n.curRTurnSpeed }

/-- `motorMessage`. -/
def Node.motorMessage (n : Node) (msg : MotorMessage) : Node :=
  let n := n.remember msg
  { n with
    motorControllerDrive :=
      if msg.mask &&& (leftDriveBit ||| rightDriveBit) ≠ 0 then
        n.motorControllerDrive.setMotorSpeed n.curRDriveSpeed n.curLDriveSpeed
      else n.motorControllerDrive
    motorControllerDepth :=
      if msg.mask &&& (frontDepthBit ||| rearDepthBit) ≠ 0 then
        n.motorControllerDepth.setMotorSpeed n.curRDepthSpeed n.curFDepthSpeed
      else n.motorControllerDepth
    motorControllerTurn :=
      if msg.mask &&& (frontTurnBit ||| rearTurnBit) ≠ 0 then
        n.motorControllerTurn.setMotorSpeed n.curRTurnSpeed n.curFTurnSpeed
      else n.motorControllerTurn }

/-- What happens in the loop of `main`: the controllers are spun, and messages are handled. -/
inductive NodeEvent where
  | motorMessage (msg : MotorMessage)
  | spinOnce (drive depth turn : Spin)

/-- One event. -/
def Node.step (n : Node) : NodeEvent → Node
  | .motorMessage msg => n.motorMessage msg
  | .spinOnce drive depth turn =>
    { n with
      motorControllerDrive := n.motorControllerDrive.spinOnce drive
      motorControllerDepth := n.motorControllerDepth.spinOnce depth
      motorControllerTurn := n.motorControllerTurn.spinOnce turn }

/-- Events one after the other. -/
def Node.run (n : Node) (events : List NodeEvent) : Node := events.foldl Node.step n

/-! ## One thruster -/

/-- The thrusters. -/
inductive Thruster where
  | leftDrive
  | rightDrive
  | frontDepth
  | rearDepth
  | frontTurn
  | rearTurn
deriving DecidableEq, Repr

/-- The bit of a thruster. -/
def Thruster.bit : Thruster → UInt8
  | leftDrive => leftDriveBit
  | rightDrive => rightDriveBit
  | frontDepth => frontDepthBit
  | rearDepth => rearDepthBit
  | frontTurn => frontTurnBit
  | rearTurn => rearTurnBit

/-- The value for a thruster in a message. -/
def MotorMessage.value (msg : MotorMessage) : Thruster → ℤ
  | .leftDrive => msg.left.toInt
  | .rightDrive => msg.right.toInt
  | .frontDepth => msg.frontDepth.toInt
  | .rearDepth => msg.rearDepth.toInt
  | .frontTurn => msg.frontTurn.toInt
  | .rearTurn => msg.rearTurn.toInt

/-- A message has the bit of a thruster in its mask. -/
def MotorMessage.Addresses (msg : MotorMessage) (thruster : Thruster) : Prop :=
  msg.mask &&& thruster.bit ≠ 0

instance (msg : MotorMessage) (thruster : Thruster) : Decidable (msg.Addresses thruster) :=
  inferInstanceAs (Decidable (_ ≠ _))

/-- The value that is remembered for a thruster. -/
def Node.current (n : Node) : Thruster → ℤ
  | .leftDrive => n.curLDriveSpeed
  | .rightDrive => n.curRDriveSpeed
  | .frontDepth => n.curFDepthSpeed
  | .rearDepth => n.curRDepthSpeed
  | .frontTurn => n.curFTurnSpeed
  | .rearTurn => n.curRTurnSpeed

/-- The target speed of a thruster in its controller. -/
def Node.target (n : Node) : Thruster → ℤ
  | .leftDrive => n.motorControllerDrive.leftTargetSpeed
  | .rightDrive => n.motorControllerDrive.rightTargetSpeed
  | .frontDepth => n.motorControllerDepth.leftTargetSpeed
  | .rearDepth => n.motorControllerDepth.rightTargetSpeed
  | .frontTurn => n.motorControllerTurn.leftTargetSpeed
  | .rearTurn => n.motorControllerTurn.rightTargetSpeed

/-- The value of the last message for a thruster among events, or zero. -/
def lastWritten (thruster : Thruster) (events : List NodeEvent) : ℤ :=
  (events.filterMap fun
    | .motorMessage msg => if msg.Addresses thruster then some (msg.value thruster) else none
    | .spinOnce _ _ _ => none).getLastD 0

/-- A value, with the sign of the motors, as a duty cycle. -/
def speedFor (value : ℤ) : ℤ := -(max (-255) (min 255 value))

/-- `filter` clamps, and changes the sign. -/
theorem filter_eq_speedFor (value : ℤ) : filter value = speedFor value := by
  simp only [filter, speedFor]
  split_ifs <;> omega

/-- What is remembered after a message. -/
theorem Node.current_motorMessage (n : Node) (msg : MotorMessage) (thruster : Thruster) :
    (n.motorMessage msg).current thruster =
      if msg.Addresses thruster then msg.value thruster else n.current thruster := by
  cases thruster <;> rfl

/-- A mask that has neither of two bits. -/
theorem mask_or_eq_zero {mask a b : UInt8} (h : mask &&& (a ||| b) = 0) :
    mask &&& a = 0 ∧ mask &&& b = 0 := by
  have hor : mask &&& a ||| mask &&& b = 0 := by
    rw [← h, ← UInt8.toBitVec_inj]
    exact BitVec.and_or_distrib_left.symm
  exact UInt8.or_eq_zero_iff.mp hor

/-- A controller is given the values of both its motors, or neither has changed. -/
theorem setMotorSpeed_targets {host : Host} {left right : ℤ}
    (hleft : host.leftTargetSpeed = filter left) (hright : host.rightTargetSpeed = filter right)
    (mask a b : UInt8) (l r : ℤ) :
    let left' := if mask &&& a ≠ 0 then l else left
    let right' := if mask &&& b ≠ 0 then r else right
    let host' := if mask &&& (a ||| b) ≠ 0 then host.setMotorSpeed right' left' else host
    host'.leftTargetSpeed = filter left' ∧ host'.rightTargetSpeed = filter right' := by
  intro left' right' host'
  unfold host'
  split_ifs with hmask
  · exact ⟨rfl, rfl⟩
  · obtain ⟨ha, hb⟩ := mask_or_eq_zero (not_not.mp hmask)
    have hkept : left' = left := if_neg (not_not.mpr ha)
    have hkept' : right' = right := if_neg (not_not.mpr hb)
    rw [hkept, hkept']
    exact ⟨hleft, hright⟩

/-- A message leaves the targets what is remembered, clamped, if they were before. -/
theorem Node.target_motorMessage {n : Node}
    (hn : ∀ thruster, n.target thruster = filter (n.current thruster)) (msg : MotorMessage)
    (thruster : Thruster) :
    (n.motorMessage msg).target thruster = filter ((n.motorMessage msg).current thruster) := by
  have hdrive := setMotorSpeed_targets (hn .leftDrive) (hn .rightDrive) msg.mask leftDriveBit
    rightDriveBit msg.left.toInt msg.right.toInt
  have hdepth := setMotorSpeed_targets (hn .frontDepth) (hn .rearDepth) msg.mask frontDepthBit
    rearDepthBit msg.frontDepth.toInt msg.rearDepth.toInt
  have hturn := setMotorSpeed_targets (hn .frontTurn) (hn .rearTurn) msg.mask frontTurnBit
    rearTurnBit msg.frontTurn.toInt msg.rearTurn.toInt
  cases thruster with
  | leftDrive => exact hdrive.1
  | rightDrive => exact hdrive.2
  | frontDepth => exact hdepth.1
  | rearDepth => exact hdepth.2
  | frontTurn => exact hturn.1
  | rearTurn => exact hturn.2

/-! ## Spinning -/

/-- Only `setMotorSpeed` changes the targets. -/
theorem Host.Does.targets {h h' : Host} {s : HostStep} {e : Event Message Message}
    (hdoes : h.Does s h' e) (hs : ∀ right left, s ≠ .setMotorSpeed right left) :
    h'.leftTargetSpeed = h.leftTargetSpeed ∧ h'.rightTargetSpeed = h.rightTargetSpeed := by
  cases hdoes with
  | setMotorSpeed right left => exact absurd rfl (hs right left)
  | idle s buffer => exact ⟨rfl, rfl⟩
  | handle b response hhandles => cases hhandles <;> exact ⟨rfl, rfl⟩
  | motor t hfree => exact ⟨rfl, rfl⟩
  | query t junk q hfree =>
    obtain ⟨r, l, v, hnoted⟩ := h.noteQuery_sent t junk q
    rw [hnoted]
    exact ⟨rfl, rfl⟩
  | resend now sent hawaiting => exact ⟨rfl, rfl⟩

/-- Steps without `setMotorSpeed` leave the targets. -/
theorem Host.run_targets {steps : List HostStep}
    (hsteps : ∀ s ∈ steps, ∀ right left, s ≠ .setMotorSpeed right left) (h : Host) :
    (h.run steps).leftTargetSpeed = h.leftTargetSpeed ∧
      (h.run steps).rightTargetSpeed = h.rightTargetSpeed := by
  induction steps generalizing h with
  | nil => exact ⟨rfl, rfl⟩
  | cons s steps ih =>
    obtain ⟨hs, hrest⟩ := List.forall_mem_cons.mp hsteps
    obtain ⟨hleft, hright⟩ := ih hrest (h.act s).1
    obtain ⟨hleft', hright'⟩ := (h.does_act s).targets hs
    exact ⟨hleft.trans hleft', hright.trans hright'⟩

/-- `spinOnce` leaves the targets. -/
theorem Host.spinOnce_targets (h : Host) (s : Spin) :
    (h.spinOnce s).leftTargetSpeed = h.leftTargetSpeed ∧
      (h.spinOnce s).rightTargetSpeed = h.rightTargetSpeed := by
  have hrun : h.run (h.allSteps ([s].map .spinOnce)) = h.spinOnce s :=
    (h.history_eq_trace ([s].map .spinOnce)).2
  rw [← hrun]
  exact Host.run_targets (h.allSteps_spins [s]) h

/-- So does spinning the controllers of the node. -/
theorem Node.target_spinOnce (n : Node) (drive depth turn : Spin) (thruster : Thruster) :
    (n.step (.spinOnce drive depth turn)).target thruster = n.target thruster := by
  have hdrive := n.motorControllerDrive.spinOnce_targets drive
  have hdepth := n.motorControllerDepth.spinOnce_targets depth
  have hturn := n.motorControllerTurn.spinOnce_targets turn
  cases thruster with
  | leftDrive => exact hdrive.1
  | rightDrive => exact hdrive.2
  | frontDepth => exact hdepth.1
  | rearDepth => exact hdepth.2
  | frontTurn => exact hturn.1
  | rearTurn => exact hturn.2

/-! ## Runs -/

theorem Node.run_append (n : Node) (events : List NodeEvent) (e : NodeEvent) :
    n.run (events ++ [e]) = (n.run events).step e := by
  simp [run]

/-- A message writes the registers of the thrusters that it addresses. -/
theorem lastWritten_motorMessage (thruster : Thruster) (events : List NodeEvent)
    (msg : MotorMessage) :
    lastWritten thruster (events ++ [.motorMessage msg]) =
      if msg.Addresses thruster then msg.value thruster else lastWritten thruster events := by
  unfold lastWritten
  split_ifs with haddressed
  · simp [List.filterMap_append, haddressed]
  · simp [List.filterMap_append, haddressed]

theorem lastWritten_spinOnce (thruster : Thruster) (events : List NodeEvent)
    (drive depth turn : Spin) :
    lastWritten thruster (events ++ [.spinOnce drive depth turn]) =
      lastWritten thruster events := by
  simp [lastWritten, List.filterMap_append]

/-- What is remembered for each thruster is what was written last. -/
theorem Node.current_run (drive depth turn : Host) (events : List NodeEvent) (thruster : Thruster) :
    ((Node.new drive depth turn).run events).current thruster = lastWritten thruster events := by
  induction events using List.reverseRecOn with
  | nil => cases thruster <;> rfl
  | append_singleton events e ih =>
    rw [Node.run_append]
    cases e with
    | motorMessage msg =>
      rw [lastWritten_motorMessage, ← ih]
      exact Node.current_motorMessage _ msg thruster
    | spinOnce driveSpin depthSpin turnSpin =>
      rw [lastWritten_spinOnce, ← ih]
      cases thruster <;> rfl

/-- The target speeds are what is remembered, clamped. -/
theorem Node.target_run (drive depth turn : Host) (events : List NodeEvent) (thruster : Thruster) :
    ((Node.new drive depth turn).run events).target thruster =
      filter (((Node.new drive depth turn).run events).current thruster) := by
  induction events using List.reverseRecOn generalizing thruster with
  | nil => cases thruster <;> rfl
  | append_singleton events e ih =>
    rw [Node.run_append]
    cases e with
    | motorMessage msg => exact Node.target_motorMessage ih msg thruster
    | spinOnce driveSpin depthSpin turnSpin =>
      rw [Node.target_spinOnce, ih thruster]
      cases thruster <;> rfl

/-- After any messages, and whatever the controllers did between them, the target speed of each
thruster is that for the value of the last message with its bit; a message without it leaves the
target. -/
theorem targets_last_written (drive depth turn : Host) (events : List NodeEvent)
    (thruster : Thruster) :
    ((Node.new drive depth turn).run events).target thruster =
        speedFor (lastWritten thruster events) ∧
      ∀ msg : MotorMessage, ¬ msg.Addresses thruster →
        (((Node.new drive depth turn).run events).step (.motorMessage msg)).target thruster =
          ((Node.new drive depth turn).run events).target thruster := by
  have htarget (events : List NodeEvent) :
      ((Node.new drive depth turn).run events).target thruster =
        speedFor (lastWritten thruster events) := by
    rw [Node.target_run, filter_eq_speedFor, Node.current_run]
  refine ⟨htarget events, fun msg hnot => ?_⟩
  rw [← Node.run_append, htarget, htarget, lastWritten_motorMessage, if_neg hnot]

end Guillemot.Motor
