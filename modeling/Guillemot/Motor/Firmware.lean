import Guillemot.Motor.Wire

/-!
# The firmware of the motor controller

`WildThumperControllerSerial.pde`: the `loop` of the firmware takes at most one frame from its
receive buffer and handles it (`dispatch`), then measures and checks the motors (`measureAndCheck`).
Bytes arrive between these. A float is its 32-bit pattern; `millivolts` computes the product of a
reading and the constant `4.883`, rounded to the nearest pattern as the source's arithmetic is.
-/

namespace Guillemot.Motor

/-! ## State -/

/-- The duty cycles that `analogWrite` has set on the pins of the H bridges. -/
structure Pwm where
  /-- `LmotorA`. -/
  lMotorA : UInt8
  /-- `LmotorB`. -/
  lMotorB : UInt8
  /-- `RmotorA`. -/
  rMotorA : UInt8
  /-- `RmotorB`. -/
  rMotorB : UInt8
deriving DecidableEq, Repr

/-- The signed duty cycle of the left motor, forward minus reverse. -/
def Pwm.left (p : Pwm) : ℤ := p.lMotorA.toNat - p.lMotorB.toNat

/-- The signed duty cycle of the right motor. -/
def Pwm.right (p : Pwm) : ℤ := p.rMotorA.toNat - p.rMotorB.toNat

/-- The globals of the firmware, its receive buffer and its motor pins. -/
structure Firmware where
  /-- What `Serial.read()` still returns. -/
  rx : List UInt8
  /-- `voltage`. -/
  voltage : UInt32
  /-- `rMotorCurrent`. -/
  rMotorCurrent : UInt32
  /-- `lMotorCurrent`. -/
  lMotorCurrent : UInt32
  /-- `lMotorOverload`. -/
  lMotorOverload : Bool
  /-- `rMotorOverload`. -/
  rMotorOverload : Bool
  /-- `startTime`. -/
  startTime : UInt32
  /-- `motorsKilled`. -/
  motorsKilled : Bool
  /-- The motor pins. -/
  pwm : Pwm
deriving DecidableEq, Repr

/-- The firmware after `setup`, with `millis()` at `now`. -/
def Firmware.setup (now : UInt32) : Firmware where
  rx := []
  voltage := 0
  rMotorCurrent := 0
  lMotorCurrent := 0
  lMotorOverload := false
  rMotorOverload := false
  startTime := now
  motorsKilled := false
  pwm := ⟨0, 0, 0, 0⟩

/-! ## Handling a frame -/

/-- The data of `sendError` for an ASCII text of four letters. -/
def errorButn : Data := ⟨0x42, 0x55, 0x54, 0x4e⟩

@[inherit_doc errorButn]
def errorOlL : Data := ⟨0x4f, 0x4c, 0x2d, 0x4c⟩

@[inherit_doc errorButn]
def errorOlR : Data := ⟨0x4f, 0x4c, 0x2d, 0x52⟩

/-- The data of the answer to `CLEAR_CMD`: `"OK"`, and two zeros from `memset`. -/
def clearOk : Data := ⟨0x4f, 0x4b, 0, 0⟩

/-- The letters that name a motor in a current request. -/
def leftByte : UInt8 := 0x4c

@[inherit_doc leftByte]
def rightByte : UInt8 := 0x52

/-- `setMotors`. -/
def setMotors (d : Data) : Pwm := ⟨d.b0, d.b1, d.b2, d.b3⟩

/-- The branch of `loop` for a good packet, with `millis()` at `now`: the firmware afterwards, and
the frame that it sends, if any. -/
def Firmware.handle (fw : Firmware) (m : Message) (now : UInt32) : Firmware × Option Message :=
  if m.type = driveCmd then
    if fw.motorsKilled then ({ fw with startTime := now }, some ⟨errorCmd, errorButn⟩)
    else if fw.lMotorOverload then ({ fw with startTime := now }, some ⟨errorCmd, errorOlL⟩)
    else if fw.rMotorOverload then ({ fw with startTime := now }, some ⟨errorCmd, errorOlR⟩)
    else ({ fw with pwm := setMotors m.data, startTime := now }, some ⟨driveResp, m.data⟩)
  else if m.type = voltageCmd then
    ({ fw with startTime := now }, some ⟨voltageResp, .ofFloat fw.voltage⟩)
  else if m.type = currentCmd then
    ({ fw with startTime := now },
      -- A request for neither motor is not answered.
      if m.data.b0 = leftByte then some ⟨currentResp, .ofFloat fw.lMotorCurrent⟩
      else if m.data.b0 = rightByte then some ⟨currentResp, .ofFloat fw.rMotorCurrent⟩
      else none)
  else if m.type = clearCmd then
    ({ fw with startTime := now, rMotorOverload := false, lMotorOverload := false },
      some ⟨clearResp, clearOk⟩)
  else (fw, none)

/-- The first part of `loop`: it reads up to the next `'S'`, then a packet when one is there, and
handles it when it is good. Returns the message that was dispatched, with the answer. -/
def Firmware.dispatch (fw : Firmware) (now : UInt32) :
    Firmware × Option (Message × Option Message) :=
  match FixedFrames.next startSyncVal packetSize fw.rx with
  | (none, rx) => ({ fw with rx }, none)
  | (some packet, rx) =>
    match Message.ofBytes packet with
    | none => ({ fw with rx }, none) -- All seven bytes are gone.
    | some m =>
      ((Firmware.handle { fw with rx } m now).1,
        some (m, (Firmware.handle { fw with rx } m now).2))

/-! ## Measuring and checking -/

/-- `n / 2 ^ s`, rounded to the nearest number, and to the even one of two. -/
def roundShift (n s : ℕ) : ℕ :=
  if 2 ^ s < 2 * (n % 2 ^ s) ∨ 2 * (n % 2 ^ s) = 2 ^ s ∧ n / 2 ^ s % 2 = 1 then n / 2 ^ s + 1
  else n / 2 ^ s

/-- `val * 4.883` as a float. The float nearest to `4.883` is `10240393 / 2 ^ 21`; the product is
rounded to 24 bits, and the sum carries into the exponent when the significand is rounded up to
`2 ^ 24`. -/
def millivolts (val : ℕ) : UInt32 :=
  let product := 10240393 * val
  if product = 0 then 0
  else
    let e := Nat.log 2 product
    UInt32.ofNat (2 ^ 23 * (e + 127 - 21 - 1) + roundShift product (e - 23))

/-- `MAX_MOTOR_CURRENT`. -/
def maxMotorCurrent : ℕ := 550

/-- `HEART_BEAT_MS`. -/
def heartBeatMs : UInt32 := 5000

/-- `MOTOR_KILL_THRESHOLD`. -/
def motorKillThreshold : ℕ := 600

/-- What the pins and the clock return to one iteration of `loop`, after its first part. -/
structure Readings where
  /-- `analogRead(Battery)`. -/
  battery : Fin 1024
  /-- `analogRead(LmotorC)`. -/
  lMotorC : Fin 1024
  /-- `analogRead(RmotorC)`. -/
  rMotorC : Fin 1024
  /-- `analogRead(MOTOR_KILL_PIN)`. -/
  killed : Fin 1024
  /-- `millis()` in the test of the heartbeat. -/
  now : UInt32
  /-- `millis()` when the heartbeat is started anew. -/
  restart : UInt32
deriving DecidableEq, Repr

/-- The readings at the time `now`, with the battery flat. -/
def Readings.at (killed lMotorC rMotorC : ℕ) (now : UInt32) : Readings :=
  ⟨0, .ofNat _ lMotorC, .ofNat _ rMotorC, .ofNat _ killed, now, now⟩

/-- `readVoltage`. -/
def Firmware.readVoltage (fw : Firmware) (r : Readings) : Firmware :=
  { fw with voltage := millivolts r.battery }

/-- `readCurrents`. -/
def Firmware.readCurrents (fw : Firmware) (r : Readings) : Firmware :=
  { fw with lMotorCurrent := millivolts r.lMotorC, rMotorCurrent := millivolts r.rMotorC }

/-- The comparison with `LEFT_MAX_CURRENT` and `RIGHT_MAX_CURRENT`. Floats that are not negative are
ordered as their patterns. -/
def overMaxCurrent (current : UInt32) : Bool := millivolts maxMotorCurrent < current

/-- The test of `checkHealth` on the current of the left motor. -/
def Firmware.checkLeftCurrent (fw : Firmware) : Firmware :=
  if overMaxCurrent fw.lMotorCurrent then
    { fw with pwm.lMotorA := 0, pwm.lMotorB := 0, lMotorOverload := true }
  else fw

/-- The test of `checkHealth` on the current of the right motor. -/
def Firmware.checkRightCurrent (fw : Firmware) : Firmware :=
  if overMaxCurrent fw.rMotorCurrent then
    { fw with pwm.rMotorA := 0, pwm.rMotorB := 0, rMotorOverload := true }
  else fw

/-- The test of `checkHealth` on the time since the last request. -/
def Firmware.checkHeartBeat (fw : Firmware) (r : Readings) : Firmware :=
  if heartBeatMs < r.now - fw.startTime then
    { fw with pwm := ⟨0, 0, 0, 0⟩, startTime := r.restart }
  else fw

/-- The test of `checkHealth` on the kill switch. -/
def Firmware.checkKilled (fw : Firmware) (r : Readings) : Firmware :=
  if r.killed < motorKillThreshold then { fw with pwm := ⟨0, 0, 0, 0⟩, motorsKilled := true }
  else { fw with motorsKilled := false }

/-- `checkHealth`. -/
def Firmware.checkHealth (fw : Firmware) (r : Readings) : Firmware :=
  ((fw.checkLeftCurrent.checkRightCurrent).checkHeartBeat r).checkKilled r

/-- The second part of `loop`. -/
def Firmware.measureAndCheck (fw : Firmware) (r : Readings) : Firmware :=
  ((fw.readVoltage r).readCurrents r).checkHealth r

/-- `loop`. -/
def Firmware.loop (fw : Firmware) (now : UInt32) (r : Readings) :
    Firmware × Option (Message × Option Message) :=
  ((fw.dispatch now).1.measureAndCheck r, (fw.dispatch now).2)

/-! ## What the parts change -/

/-- The duty cycles change only to those of a drive request. -/
theorem Firmware.handle_pwm (fw : Firmware) (m : Message) (now : UInt32) :
    (fw.handle m now).1.pwm = fw.pwm ∨
      m.type = driveCmd ∧ (fw.handle m now).1.pwm = setMotors m.data := by
  unfold handle
  split_ifs with hdrive
  all_goals first
    | exact .inl rfl
    | exact .inr ⟨hdrive, rfl⟩

/-- Only a current request is answered with a current. -/
theorem Firmware.type_of_currentResp {fw : Firmware} {m reply : Message} {now : UInt32}
    (hreply : (fw.handle m now).2 = some reply) (hresp : reply.type = currentResp) :
    m.type = currentCmd := by
  by_contra hcurrent
  -- The branches that are left answer with another type.
  unfold handle at hreply
  split_ifs at hreply
  all_goals
    obtain rfl := Option.some.inj hreply
    simp [errorCmd, driveResp, voltageResp, clearResp, currentResp] at hresp

/-! ## The receive buffer apart -/

section Buffer

variable (fw : Firmware) (rx : List UInt8)

/-- The handling of a message does not touch the receive buffer. -/
theorem Firmware.handle_with_rx (m : Message) (now : UInt32) :
    Firmware.handle { fw with rx } m now =
      ({ (fw.handle m now).1 with rx }, (fw.handle m now).2) := by
  unfold handle
  split_ifs <;> rfl

/-- Without a packet in the receive buffer nothing is dispatched. -/
theorem Firmware.dispatch_of_none {now : UInt32}
    (h : FixedFrames.next startSyncVal packetSize fw.rx = (none, rx)) :
    fw.dispatch now = ({ fw with rx }, none) := by
  unfold dispatch
  rw [h]

/-- A whole frame in the receive buffer is dispatched. -/
theorem Firmware.dispatch_of_frame {m : Message} {now : UInt32}
    (h : FixedFrames.next startSyncVal packetSize fw.rx = (some m.bytes, rx)) :
    fw.dispatch now = ({ (fw.handle m now).1 with rx }, some (m, (fw.handle m now).2)) := by
  have hhandle := fw.handle_with_rx rx m now
  unfold dispatch
  rw [h]
  simp only [Message.ofBytes_bytes, hhandle]

/-- The measuring and checking does not touch the receive buffer. -/
theorem Firmware.measureAndCheck_with_rx (r : Readings) :
    Firmware.measureAndCheck { fw with rx } r = { fw.measureAndCheck r with rx } := by
  have hleft : ∀ fw : Firmware, Firmware.checkLeftCurrent { fw with rx } =
      { fw.checkLeftCurrent with rx } := by
    intro fw
    unfold checkLeftCurrent
    split_ifs <;> rfl
  have hright : ∀ fw : Firmware, Firmware.checkRightCurrent { fw with rx } =
      { fw.checkRightCurrent with rx } := by
    intro fw
    unfold checkRightCurrent
    split_ifs <;> rfl
  have hbeat : ∀ fw : Firmware, Firmware.checkHeartBeat { fw with rx } r =
      { fw.checkHeartBeat r with rx } := by
    intro fw
    unfold checkHeartBeat
    split_ifs <;> rfl
  have hkilled : ∀ fw : Firmware, Firmware.checkKilled { fw with rx } r =
      { fw.checkKilled r with rx } := by
    intro fw
    unfold checkKilled
    split_ifs <;> rfl
  have hread : Firmware.readCurrents (Firmware.readVoltage { fw with rx } r) r =
      { (fw.readVoltage r).readCurrents r with rx } := rfl
  simp only [measureAndCheck, checkHealth, hread, hleft, hright, hbeat, hkilled]

@[simp]
theorem Firmware.handle_rx (m : Message) (now : UInt32) : (fw.handle m now).1.rx = fw.rx :=
  congrArg (·.1.rx) (fw.handle_with_rx fw.rx m now)

@[simp]
theorem Firmware.measureAndCheck_rx (r : Readings) : (fw.measureAndCheck r).rx = fw.rx :=
  congrArg (·.rx) (fw.measureAndCheck_with_rx fw.rx r)

end Buffer

/-- The receive buffer after the first part of `loop`. -/
theorem Firmware.dispatch_rx (fw : Firmware) (now : UInt32) :
    (fw.dispatch now).1.rx = (FixedFrames.next startSyncVal packetSize fw.rx).2 := by
  unfold dispatch
  split
  · rename_i h
    rw [h]
  · rename_i h
    rw [h]
    split <;> simp

/-- The message that is dispatched is the one in the packet that is read. -/
theorem Firmware.dispatch_message (fw : Firmware) (now : UInt32) :
    (fw.dispatch now).2.map Prod.fst =
      (FixedFrames.next startSyncVal packetSize fw.rx).1.bind Message.ofBytes := by
  unfold dispatch
  split
  · rename_i h
    rw [h]
    rfl
  · rename_i h
    rw [h]
    split
    · rename_i hpacket
      simp [hpacket]
    · rename_i m hpacket
      simp [hpacket]

end Guillemot.Motor
