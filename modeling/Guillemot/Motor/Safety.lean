import Guillemot.Motor.Resync

/-!
# The motors of a firmware at fault

`loop` sets the motors from a drive request and takes the setting back in `checkHealth`, and the
flags that a check sets refuse the drive requests of later iterations. `Firmware.Safe` is what holds
at the end of every iteration: a motor whose flag is set is off. Each part of `loop` keeps it, so it
holds in all runs, and only a clear request resets an overload (`safety_invariant`).

A drive request is refused as a whole when one motor is overloaded, the request to stop as well.
`Stops` is what it takes for all motors to be off at the end of such an iteration, and
`stop_request_stops` the statement about every run.
-/

namespace Guillemot.Motor

/-! ## Motors that are off -/

/-- Both inputs of the left H bridge are off. -/
def Pwm.LeftOff (p : Pwm) : Prop := p.lMotorA = 0 ∧ p.lMotorB = 0

/-- Both inputs of the right H bridge are off. -/
def Pwm.RightOff (p : Pwm) : Prop := p.rMotorA = 0 ∧ p.rMotorB = 0

instance (p : Pwm) : Decidable p.LeftOff := inferInstanceAs (Decidable (_ ∧ _))

instance (p : Pwm) : Decidable p.RightOff := inferInstanceAs (Decidable (_ ∧ _))

theorem Pwm.eq_zero_iff (p : Pwm) : p = ⟨0, 0, 0, 0⟩ ↔ p.LeftOff ∧ p.RightOff := by
  cases p
  simp only [Pwm.mk.injEq, LeftOff, RightOff]
  tauto

/-- A motor whose flag is set is off, and so are both when the motors are killed. -/
structure Firmware.Safe (fw : Firmware) : Prop where
  killed : fw.motorsKilled = true → fw.pwm = ⟨0, 0, 0, 0⟩
  left : fw.lMotorOverload = true → fw.pwm.LeftOff
  right : fw.rMotorOverload = true → fw.pwm.RightOff

/-- The flags of the overloads that are set in `fw` are set in `fw'`. -/
def Firmware.KeepsOverloads (fw fw' : Firmware) : Prop :=
  (fw.lMotorOverload = true → fw'.lMotorOverload = true) ∧
    (fw.rMotorOverload = true → fw'.rMotorOverload = true)

theorem Firmware.KeepsOverloads.refl (fw : Firmware) : fw.KeepsOverloads fw := ⟨id, id⟩

theorem Firmware.KeepsOverloads.trans {fw fw' fw'' : Firmware} (h : fw.KeepsOverloads fw')
    (h' : fw'.KeepsOverloads fw'') : fw.KeepsOverloads fw'' :=
  ⟨fun hl => h'.1 (h.1 hl), fun hr => h'.2 (h.2 hr)⟩

/-! ## What the parts of `loop` keep -/

/-- A request that is handled keeps the motors safe: they are set only when no flag is. -/
theorem Firmware.Safe.handle {fw : Firmware} (h : fw.Safe) (m : Message) (now : UInt32) :
    (fw.handle m now).1.Safe := by
  unfold Firmware.handle
  split_ifs with hdrive hkilled hl hr
  -- The accepted drive request is the only branch that sets the motors.
  case neg => exact ⟨fun hk => absurd hk hkilled, fun hk => absurd hk hl, fun hk => absurd hk hr⟩
  all_goals first
    | exact ⟨h.killed, h.left, h.right⟩
    | exact ⟨h.killed, nofun, nofun⟩

/-- Only a clear request resets an overload. -/
theorem Firmware.handle_keepsOverloads (fw : Firmware) (m : Message) (now : UInt32)
    (hm : m.type ≠ clearCmd) : fw.KeepsOverloads (fw.handle m now).1 := by
  unfold Firmware.handle
  split_ifs
  all_goals exact ⟨id, id⟩

theorem Firmware.Safe.dispatch {fw : Firmware} (h : fw.Safe) (now : UInt32) :
    (fw.dispatch now).1.Safe := by
  have hrx : ∀ rx, Firmware.Safe { fw with rx } := fun _ => ⟨h.killed, h.left, h.right⟩
  unfold Firmware.dispatch
  split
  · exact hrx _
  · split
    · exact hrx _
    · exact (hrx _).handle _ now

theorem Firmware.dispatch_keepsOverloads (fw : Firmware) (now : UInt32)
    (hclear : ∀ m reply, (fw.dispatch now).2 = some (m, reply) → m.type ≠ clearCmd) :
    fw.KeepsOverloads (fw.dispatch now).1 := by
  unfold Firmware.dispatch at hclear ⊢
  split
  · exact ⟨id, id⟩
  · rename_i packet rx hnext
    split
    · exact ⟨id, id⟩
    · rename_i m hpacket
      simp only [hnext, hpacket] at hclear
      exact Firmware.handle_keepsOverloads { fw with rx } m now (hclear m _ rfl)

/-- What a check of `checkHealth` does to the motors and the overloads. -/
structure Firmware.Checks (fw fw' : Firmware) : Prop where
  safe : fw.Safe → fw'.Safe
  keeps : fw.KeepsOverloads fw'

theorem Firmware.checkLeftCurrent_checks (fw : Firmware) : fw.Checks fw.checkLeftCurrent := by
  unfold checkLeftCurrent
  split_ifs
  · refine ⟨fun h => ⟨fun hk => ?_, fun _ => ⟨rfl, rfl⟩, h.right⟩, fun _ => rfl, id⟩
    simp [h.killed hk]
  · exact ⟨id, .refl fw⟩

theorem Firmware.checkRightCurrent_checks (fw : Firmware) : fw.Checks fw.checkRightCurrent := by
  unfold checkRightCurrent
  split_ifs
  · refine ⟨fun h => ⟨fun hk => ?_, h.left, fun _ => ⟨rfl, rfl⟩⟩, id, fun _ => rfl⟩
    simp [h.killed hk]
  · exact ⟨id, .refl fw⟩

theorem Firmware.checkHeartBeat_checks (fw : Firmware) (r : Readings) :
    fw.Checks (fw.checkHeartBeat r) := by
  unfold checkHeartBeat
  split_ifs
  · exact ⟨fun _ => ⟨fun _ => rfl, fun _ => ⟨rfl, rfl⟩, fun _ => ⟨rfl, rfl⟩⟩, id, id⟩
  · exact ⟨id, .refl fw⟩

theorem Firmware.checkKilled_checks (fw : Firmware) (r : Readings) :
    fw.Checks (fw.checkKilled r) := by
  unfold checkKilled
  split_ifs
  · exact ⟨fun _ => ⟨fun _ => rfl, fun _ => ⟨rfl, rfl⟩, fun _ => ⟨rfl, rfl⟩⟩, id, id⟩
  · exact ⟨fun h => ⟨nofun, h.left, h.right⟩, id, id⟩

theorem Firmware.Checks.trans {fw fw' fw'' : Firmware} (h : fw.Checks fw')
    (h' : fw'.Checks fw'') : fw.Checks fw'' :=
  ⟨fun hs => h'.safe (h.safe hs), h.keeps.trans h'.keeps⟩

/-- The second part of `loop` keeps the motors safe and resets no overload. -/
theorem Firmware.measureAndCheck_checks (fw : Firmware) (r : Readings) :
    fw.Checks (fw.measureAndCheck r) := by
  -- The measurements change neither motors nor overloads, and the four checks follow in this order.
  have hread : fw.Checks ((fw.readVoltage r).readCurrents r) :=
    ⟨fun h => ⟨h.killed, h.left, h.right⟩, id, id⟩
  have hleft := Firmware.checkLeftCurrent_checks ((fw.readVoltage r).readCurrents r)
  have hright := Firmware.checkRightCurrent_checks
    ((fw.readVoltage r).readCurrents r).checkLeftCurrent
  exact (((hread.trans hleft).trans hright).trans (checkHeartBeat_checks _ r)).trans
    (checkKilled_checks _ r)

/-- An iteration of `loop` keeps the motors safe. -/
theorem Firmware.Safe.loop {fw : Firmware} (h : fw.Safe) (now : UInt32) (r : Readings) :
    (fw.loop now r).1.Safe :=
  (Firmware.measureAndCheck_checks _ r).safe (h.dispatch now)

/-- An iteration of `loop` resets an overload only when it dispatches a clear request. -/
theorem Firmware.loop_keepsOverloads (fw : Firmware) (now : UInt32) (r : Readings)
    (hclear : ∀ m reply, (fw.loop now r).2 = some (m, reply) → m.type ≠ clearCmd) :
    fw.KeepsOverloads (fw.loop now r).1 :=
  (fw.dispatch_keepsOverloads now hclear).trans (Firmware.measureAndCheck_checks _ r).keeps

/-! ## All iterations -/

theorem Firmware.setup_safe (now : UInt32) : (Firmware.setup now).Safe := ⟨nofun, nofun, nofun⟩

theorem Firmware.Safe.run {fw : Firmware} (h : fw.Safe) (its : List Iteration) :
    (Firmware.run its fw).2.Safe := by
  induction its generalizing fw with
  | nil => exact h
  | cons it its ih =>
    have hrx : Firmware.Safe { fw with rx := fw.rx ++ it.arriving } :=
      ⟨h.killed, h.left, h.right⟩
    exact ih (hrx.loop it.now it.readings)

theorem Firmware.run_keepsOverloads (its : List Iteration) (fw : Firmware)
    (hclear : ∀ m ∈ (Firmware.run its fw).1, m.type ≠ clearCmd) :
    fw.KeepsOverloads (Firmware.run its fw).2 := by
  induction its generalizing fw with
  | nil => exact .refl fw
  | cons it its ih =>
    simp only [Firmware.run, List.mem_append] at hclear ⊢
    have hstep := Firmware.loop_keepsOverloads { fw with rx := fw.rx ++ it.arriving } it.now
      it.readings fun m reply hserved => hclear m (.inl (by simp [hserved]))
    have hrest := ih _ fun m hm => hclear m (.inr hm)
    exact Firmware.KeepsOverloads.trans hstep hrest

/-- After every number of iterations, a motor whose flag is set is off, and all are when the motors
are killed; and an overload that is set stays set through all further iterations that dispatch no
clear request. -/
theorem safety_invariant (now : UInt32) (its its' : List Iteration) :
    let fw := (Firmware.run its (.setup now)).2
    (fw.motorsKilled = true → fw.pwm = ⟨0, 0, 0, 0⟩) ∧
      (fw.lMotorOverload = true → fw.pwm.lMotorA = 0 ∧ fw.pwm.lMotorB = 0) ∧
      (fw.rMotorOverload = true → fw.pwm.rMotorA = 0 ∧ fw.pwm.rMotorB = 0) ∧
      ((∀ m ∈ (Firmware.run its' fw).1, m.type ≠ clearCmd) →
        (fw.lMotorOverload = true → (Firmware.run its' fw).2.lMotorOverload = true) ∧
          (fw.rMotorOverload = true → (Firmware.run its' fw).2.rMotorOverload = true)) := by
  have hsafe := (Firmware.setup_safe now).run its
  exact ⟨hsafe.killed, hsafe.left, hsafe.right, Firmware.run_keepsOverloads its' _⟩

/-! ## The request to stop -/

/-- An iteration of `loop`, with the bytes that arrive before it. -/
def Firmware.iterate (fw : Firmware) (it : Iteration) :
    Firmware × Option (Message × Option Message) :=
  Firmware.loop { fw with rx := fw.rx ++ it.arriving } it.now it.readings

/-- The drive request with all data bytes zero. -/
def stopRequest : Message := ⟨driveCmd, ⟨0, 0, 0, 0⟩⟩

/-- The checks of the iteration leave the left motor off, on a firmware that handles a request at
the time `now`. -/
def Firmware.LeftEndsOff (fw : Firmware) (r : Readings) : Prop :=
  fw.pwm.LeftOff ∨ overMaxCurrent (millivolts r.lMotorC) = true

@[inherit_doc Firmware.LeftEndsOff]
def Firmware.RightEndsOff (fw : Firmware) (r : Readings) : Prop :=
  fw.pwm.RightOff ∨ overMaxCurrent (millivolts r.rMotorC) = true

/-- What puts all motors off in an iteration on the firmware `fw` that dispatches a request to
stop: no motor is overloaded; or the kill switch does, or the heartbeat, or each motor is off or
draws too much current. -/
def Firmware.Stops (fw : Firmware) (it : Iteration) : Prop :=
  (fw.lMotorOverload = false ∧ fw.rMotorOverload = false) ∨
    it.readings.killed < motorKillThreshold ∨
    heartBeatMs < it.readings.now - it.now ∨
    (fw.LeftEndsOff it.readings ∧ fw.RightEndsOff it.readings)

/-- The tests on the currents leave both motors off when each is off or draws too much. -/
theorem Firmware.checkCurrents_off_iff (fw : Firmware) :
    fw.checkLeftCurrent.checkRightCurrent.pwm = ⟨0, 0, 0, 0⟩ ↔
      (fw.pwm.LeftOff ∨ overMaxCurrent fw.lMotorCurrent = true) ∧
        (fw.pwm.RightOff ∨ overMaxCurrent fw.rMotorCurrent = true) := by
  rw [Pwm.eq_zero_iff]
  unfold checkRightCurrent checkLeftCurrent
  split_ifs with hl hr hr <;> simp_all [Pwm.LeftOff, Pwm.RightOff]

theorem Firmware.checkCurrents_startTime (fw : Firmware) :
    fw.checkLeftCurrent.checkRightCurrent.startTime = fw.startTime := by
  unfold checkRightCurrent checkLeftCurrent
  split_ifs <;> rfl

/-- When all motors are off after the checks. -/
theorem Firmware.measureAndCheck_off_iff (fw : Firmware) (r : Readings) :
    (fw.measureAndCheck r).pwm = ⟨0, 0, 0, 0⟩ ↔
      r.killed < motorKillThreshold ∨ heartBeatMs < r.now - fw.startTime ∨
        (fw.LeftEndsOff r ∧ fw.RightEndsOff r) := by
  let read := (fw.readVoltage r).readCurrents r
  have hcurrents : read.checkLeftCurrent.checkRightCurrent.pwm = ⟨0, 0, 0, 0⟩ ↔
      fw.LeftEndsOff r ∧ fw.RightEndsOff r := read.checkCurrents_off_iff
  have hstart : read.checkLeftCurrent.checkRightCurrent.startTime = fw.startTime :=
    read.checkCurrents_startTime
  -- The last two checks switch off all motors, or leave them.
  unfold measureAndCheck checkHealth checkKilled
  split_ifs with hkilled
  · simp [hkilled]
  · simp only [hkilled, false_or]
    unfold checkHeartBeat
    rw [hstart]
    split_ifs with hbeat
    · simp [hbeat]
    · simp only [hbeat, false_or]
      exact hcurrents

/-- A refused request leaves the motors and notes the time. -/
theorem Firmware.handle_stop_of_overload {fw : Firmware} (now : UInt32)
    (h : fw.lMotorOverload = true ∨ fw.rMotorOverload = true) :
    (fw.handle stopRequest now).1 = { fw with startTime := now } := by
  have hdrive : stopRequest.type = driveCmd := rfl
  unfold handle
  rw [if_pos hdrive]
  split_ifs with hkilled hl hr
  · rfl
  · rfl
  · rfl
  · simp [hl, hr] at h

/-- Without an overload the motors are off after the request to stop. -/
theorem Firmware.Safe.handle_stop {fw : Firmware} (h : fw.Safe) (now : UInt32)
    (hl : fw.lMotorOverload = false) (hr : fw.rMotorOverload = false) :
    (fw.handle stopRequest now).1.pwm = ⟨0, 0, 0, 0⟩ := by
  have hdrive : stopRequest.type = driveCmd := rfl
  unfold Firmware.handle
  rw [if_pos hdrive]
  split_ifs with hkilled hover hover
  · exact h.killed hkilled
  · exact absurd (hl ▸ hover) Bool.false_ne_true
  · exact absurd (hr ▸ hover) Bool.false_ne_true
  · rfl

/-- The dispatch of a message handles it on the firmware as it was. -/
theorem Firmware.dispatch_of_message {fw : Firmware} {now : UInt32} {m : Message}
    {reply : Option Message} (h : (fw.dispatch now).2 = some (m, reply)) :
    ∃ rx, (fw.dispatch now).1 = { (fw.handle m now).1 with rx } := by
  unfold dispatch at h ⊢
  split at h
  · simp at h
  · rename_i packet rx hnext
    split at h
    · simp at h
    · rename_i m' hpacket
      obtain rfl : m' = m := congrArg Prod.fst (Option.some.inj h)
      refine ⟨rx, ?_⟩
      rw [fw.handle_with_rx rx m' now]

/-- After every number of iterations, an iteration that dispatches a request to stop puts all
motors off when no motor is overloaded; and otherwise exactly when its checks do. -/
theorem stop_request_stops (now : UInt32) (its : List Iteration) (it : Iteration)
    (reply : Option Message)
    (hstop : ((Firmware.run its (.setup now)).2.iterate it).2 = some (stopRequest, reply)) :
    ((Firmware.run its (.setup now)).2.iterate it).1.pwm = ⟨0, 0, 0, 0⟩ ↔
      (Firmware.run its (.setup now)).2.Stops it := by
  have hsafe := (Firmware.setup_safe now).run its
  generalize (Firmware.run its (.setup now)).2 = fw at hsafe hstop ⊢
  -- What is dispatched is the request, and the checks follow on what it leaves.
  obtain ⟨rx, hrx⟩ := Firmware.dispatch_of_message hstop
  have hpwm : (fw.iterate it).1.pwm =
      ((fw.handle stopRequest it.now).1.measureAndCheck it.readings).pwm := by
    have hhandle := fw.handle_with_rx (fw.rx ++ it.arriving) stopRequest it.now
    have hcheck := Firmware.measureAndCheck_with_rx (fw.handle stopRequest it.now).1 rx it.readings
    simp only [Firmware.iterate, Firmware.loop, hrx, hhandle, hcheck]
  rw [hpwm, Firmware.measureAndCheck_off_iff]
  unfold Firmware.Stops
  by_cases hover : fw.lMotorOverload = true ∨ fw.rMotorOverload = true
  · -- The request is refused, so that only the checks switch anything off.
    have hflags : ¬ (fw.lMotorOverload = false ∧ fw.rMotorOverload = false) := by
      rintro ⟨hl, hr⟩
      simp [hl, hr] at hover
    rw [Firmware.handle_stop_of_overload it.now hover]
    simp only [hflags, false_or]
    rfl
  · obtain ⟨hl, hr⟩ : fw.lMotorOverload = false ∧ fw.rMotorOverload = false := by
      simpa using hover
    -- The request is met, or the motors are killed; they are off before the checks.
    obtain ⟨hleft, hright⟩ := (Pwm.eq_zero_iff _).mp (hsafe.handle_stop it.now hl hr)
    exact iff_of_true (.inr (.inr ⟨.inl hleft, .inl hright⟩)) (.inl ⟨hl, hr⟩)

/-- An iteration at the start that drives both motors, and measures too much current at the left
one. -/
def overloadsLeft : Iteration :=
  ⟨Message.bytes ⟨driveCmd, ⟨100, 0, 100, 0⟩⟩, 10, .at 1023 600 0 20⟩

/-- With the left motor overloaded, the request to stop is refused and the right motor runs on. -/
theorem stop_refused :
    let fw := (Firmware.run [overloadsLeft] (.setup 0)).2
    let it : Iteration := ⟨stopRequest.bytes, 30, .at 1023 0 0 40⟩
    (fw.iterate it).2 = some (stopRequest, some ⟨errorCmd, errorOlL⟩) ∧
      (fw.iterate it).1.pwm = ⟨0, 0, 100, 0⟩ := by
  decide +kernel

/-- The kill switch stops the motor that runs on. -/
theorem stopped_by_kill_switch :
    ((Firmware.run [overloadsLeft] (.setup 0)).2.iterate
      ⟨stopRequest.bytes, 30, .at 0 0 0 40⟩).1.pwm = ⟨0, 0, 0, 0⟩ :=
  (stop_request_stops 0 [overloadsLeft] ⟨stopRequest.bytes, 30, .at 0 0 0 40⟩
    (some ⟨errorCmd, errorOlL⟩) (by decide +kernel)).mpr (.inr (.inl (by decide)))

end Guillemot.Motor
