import Guillemot.Motion.HighLevelControl

/-!
# The depth and the heading controller

`SubDepthController.cpp` and `SubHeading.cpp`. Each handles a target, a reading and messages that
switch it on and off, and publishes on `High_Level_Motion`; numbers are as in the node that reads
them. The times that `gettimeofday` stores are inputs, in seconds.
-/

namespace Guillemot.Motion

/-- The texts that `Module` is compared with; `other` is any other text. -/
inductive Module where
  | simpleDepth
  | subHeading
  | other
deriving DecidableEq, Repr

/-- A number cut off at both sides. -/
def clamp (bound x : ℚ) : ℚ := if x > bound then bound else if x < -bound then -bound else x

/-! ## Depth -/

/-- The variables of the depth controller, with the two arguments of its `main`. -/
structure DepthController where
  KI : ℚ
  KP : ℚ
  targetDepth : ℚ
  yOld : ℚ
  eOld : ℚ
  tOld : ℚ
  on : Bool
deriving DecidableEq, Repr

/-- The initial values. -/
def DepthController.init : DepthController := ⟨15 / 1000, 1 / 2, 0, 0, 0, 0, true⟩

/-- `iMax`. -/
def iMax : ℚ := 1

/-- `setDepthSpeed`. -/
def setDepthSpeed (speed : ℚ) : HighLevelControl := ⟨.depth, .manual, speed⟩

/-- `mEnabledCallback`. -/
def DepthController.enabledCallback (d : DepthController) (module : Module) (state : Bool) :
    DepthController :=
  if module = .simpleDepth then { d with on := state } else d

/-- `mTargetDepthCallback`. -/
def DepthController.targetDepthCallback (d : DepthController) (data : ℚ) : DepthController :=
  { d with targetDepth := data }

/-- The last branch of `mCurrentDepthCallback`: the controller and the speed. The timer is read once
when it is reset, and then once more. -/
def DepthController.regulate (d : DepthController) (error reset now : ℚ) : DepthController × ℚ :=
  let error := if |error| < 2 / 100 then 0 else error
  let yOld := if d.targetDepth < 5 / 100 ∧ error < 1 / 10 then 0 else d.yOld
  let p := if error > 0 then d.KP * error * (5 / 100) else d.KP * error
  let tOld := if yOld = 0 ∧ d.eOld = 0 then reset else d.tOld
  let t := now - tOld
  let y :=
    if error > 0 then yOld + 1 / 2 * d.KI * t / 2 * (error + d.eOld)
    else yOld + d.KI * t / 2 * (error + d.eOld)
  let y := if |y| > iMax then (if y > 0 then iMax else -iMax) else y
  let y := if error = 0 then yOld else y
  ({ d with yOld := y, eOld := error, tOld := now }, p + y)

/-- `mCurrentDepthCallback`: the controller, and what it publishes. -/
def DepthController.currentDepthCallback (d : DepthController) (depth reset now : ℚ) :
    DepthController × List HighLevelControl :=
  if d.on then
    let error := depth - d.targetDepth
    let cleared := { d with yOld := 0, eOld := 0 }
    let (d, speed) :=
      if error > 1 / 2 ∧ depth < 1 then (cleared, -1)
      else if error > 3 / 2 ∧ depth > 1 then (cleared, 1)
      else if error < -(3 / 2) ∧ depth > 1 then (cleared, -1)
      else d.regulate error reset now
    (d, [setDepthSpeed (-clamp 1 speed)])
  else (d, [])

/-! ## Heading -/

/-- The variables of the heading controller. -/
structure HeadingController where
  on : Bool
  targetHeading : ℚ
  targetYaw : ℚ
  currYaw : ℚ
  error : ℚ
  isMoving : Bool
deriving DecidableEq, Repr

/-- The initial values. -/
def HeadingController.init : HeadingController := ⟨true, 0, 0, 0, 0, false⟩

/-- `KP` of the heading controller. -/
def headingKP : ℚ := 35 / 1000

/-- `MAX`. -/
def maxTurn : ℚ := 1 / 4

/-- `mSetTurnSpeed`. -/
def setTurnSpeed (speed : ℚ) : HighLevelControl := ⟨.turn, .manual, speed⟩

/-- `mSetTargetHeading`. -/
def setTargetHeading (target : ℚ) : HighLevelControl := ⟨.turn, .command, target⟩

/-- `mEnabledCallback`. -/
def HeadingController.enabledCallback (h : HeadingController) (module : Module) (state : Bool) :
    HeadingController :=
  if module = .subHeading then { h with on := state } else h

/-- `mTargetHeadingCallback`. -/
def HeadingController.targetHeadingCallback (h : HeadingController) (data : ℚ) :
    HeadingController :=
  { h with targetYaw := fmod (h.currYaw + data) 180, targetHeading := data }

/-- `mReadForwardStatus`: the controller, and what it publishes. -/
def HeadingController.readForwardStatus (h : HeadingController) (msg : HighLevelControl) :
    HeadingController × List HighLevelControl :=
  if msg.direction = .forward ∧ msg.motionType = .command then
    if |msg.value| > 5 / 100 then ({ h with isMoving := true }, [])
    else ({ h with isMoving := false }, [setTurnSpeed 0])
  else (h, [])

/-- The error of a yaw, without the small ones. -/
def yawError (yaw target : ℚ) : ℚ := if |yaw - target| < 2 / 100 then 0 else yaw - target

/-- `mHeadingCallback`: the controller, and what it publishes. -/
def HeadingController.headingCallback (h : HeadingController) (yaw : ℚ) :
    HeadingController × List HighLevelControl :=
  if h.on then
    let h := { h with currYaw := yaw }
    if h.isMoving then
      let error := yawError h.currYaw h.targetYaw
      ({ h with error := error },
        [setTurnSpeed (-clamp maxTurn (headingKP * error)), setTargetHeading (-error)])
    else (h, [])
  else (h, [])

/-! ## What the controllers publish -/

/-- The depth controller publishes nothing but speeds for the depth. -/
theorem currentDepthCallback_publishes {d : DepthController} {depth reset now : ℚ}
    {msg : HighLevelControl} (h : msg ∈ (d.currentDepthCallback depth reset now).2) :
    msg.direction = .depth ∧ msg.motionType = .manual := by
  unfold DepthController.currentDepthCallback at h
  split_ifs at h
  · obtain rfl := List.mem_singleton.mp h
    exact ⟨rfl, rfl⟩
  · cases h

/-- The heading controller publishes nothing but messages for the turn. -/
theorem readForwardStatus_publishes {h : HeadingController} {sent msg : HighLevelControl}
    (hmsg : msg ∈ (h.readForwardStatus sent).2) : msg = setTurnSpeed 0 := by
  unfold HeadingController.readForwardStatus at hmsg
  split_ifs at hmsg
  · cases hmsg
  · exact List.mem_singleton.mp hmsg
  · cases hmsg

/-- What a reading publishes: a speed, and the error with the other sign. -/
theorem headingCallback_publishes {h : HeadingController} {yaw : ℚ} {msg : HighLevelControl}
    (hmsg : msg ∈ (h.headingCallback yaw).2) :
    msg.direction = .turn ∧
      (msg.motionType = .manual ∨ msg = setTargetHeading (-yawError yaw h.targetYaw)) := by
  unfold HeadingController.headingCallback at hmsg
  dsimp only at hmsg
  split_ifs at hmsg
  · rcases List.mem_pair.mp hmsg with rfl | rfl
    · exact ⟨rfl, .inl rfl⟩
    · exact ⟨rfl, .inr rfl⟩
  · cases hmsg
  · cases hmsg

/-- A reading leaves the target. -/
@[simp]
theorem headingCallback_targetYaw (h : HeadingController) (yaw : ℚ) :
    (h.headingCallback yaw).1.targetYaw = h.targetYaw := by
  unfold HeadingController.headingCallback
  dsimp only
  split_ifs <;> rfl

@[simp]
theorem readForwardStatus_targetYaw (h : HeadingController) (msg : HighLevelControl) :
    (h.readForwardStatus msg).1.targetYaw = h.targetYaw := by
  unfold HeadingController.readForwardStatus
  split_ifs <;> rfl

@[simp]
theorem enabledCallback_targetYaw (h : HeadingController) (module : Module) (state : Bool) :
    (h.enabledCallback module state).targetYaw = h.targetYaw := by
  unfold HeadingController.enabledCallback
  split_ifs <;> rfl

end Guillemot.Motion
