import Guillemot.Library.Watchdog
import Guillemot.Motor.Safety

/-!
# The heartbeat of the firmware

`checkHealth` puts the motors off when no command has come for `HEART_BEAT_MS`. It compares with
`startTime`, which every command sets, and which the test itself sets anew, in milliseconds modulo
`2 ^ 32`. Its comment expects the motors to shut off unexpectedly when this counter rolls over.

They do not: the firmware is a watchdog on that counter (`Monitored.Guards`), and `heart_beat` says
that the test is neither late nor early, by the true time.
-/

namespace Guillemot.Motor

/-! ## Iterations at true times -/

/-- `millis()` at a true time. -/
def millis (t : ℕ) : UInt32 := .ofNat t

/-- What happens in one iteration of `loop`, at which true times. -/
structure TimedIteration where
  /-- The bytes that arrive before it. -/
  arriving : List UInt8
  /-- `analogRead(Battery)`. -/
  battery : Fin 1024
  /-- `analogRead(LmotorC)`. -/
  lMotorC : Fin 1024
  /-- `analogRead(RmotorC)`. -/
  rMotorC : Fin 1024
  /-- `analogRead(MOTOR_KILL_PIN)`. -/
  killed : Fin 1024
  /-- When a command notes its time, if there is one. -/
  command : ℕ
  /-- When `checkHealth` samples the clock. -/
  check : ℕ
  /-- When the heartbeat is started anew, if it is. -/
  restart : ℕ

/-- The iteration as the firmware meets it. -/
def TimedIteration.iteration (it : TimedIteration) : Iteration where
  arriving := it.arriving
  now := millis it.command
  readings :=
    ⟨it.battery, it.lMotorC, it.rMotorC, it.killed, millis it.check, millis it.restart⟩

/-- The true times of iterations after a test at the time `tested`, in a run that has come to the
time `now`, are in order, and each test is less than `2 ^ 31` milliseconds after the one before. -/
def Timely : ℕ → ℕ → List TimedIteration → Prop
  | _, _, [] => True
  | tested, now, it :: its =>
    now ≤ it.command ∧ it.command ≤ it.check ∧ it.check ≤ it.restart ∧
      it.check < tested + 2 ^ 31 ∧ Timely it.check it.restart its

instance Timely.decidable : ∀ tested now its, Decidable (Timely tested now its)
  | _, _, [] => isTrue trivial
  | tested, now, it :: its =>
    have := Timely.decidable it.check it.restart its
    inferInstanceAs (Decidable (now ≤ it.command ∧ it.command ≤ it.check ∧ it.check ≤ it.restart ∧
      it.check < tested + 2 ^ 31 ∧ Timely it.check it.restart its))

/-- The messages that `loop` recognises. -/
def IsCommand (m : Message) : Prop :=
  m.type = driveCmd ∨ m.type = voltageCmd ∨ m.type = currentCmd ∨ m.type = clearCmd

instance (m : Message) : Decidable (IsCommand m) := inferInstanceAs (Decidable (_ ∨ _))

/-- An iteration handles a command. -/
def Firmware.recognises (fw : Firmware) (it : Iteration) : Bool :=
  (fw.iterate it).2.any fun served => IsCommand served.1

/-- The firmware, with the true time of its last command or of start-up. -/
structure Monitored where
  firmware : Firmware
  commanded : ℕ

/-- Start-up. -/
def Monitored.setup (now : ℕ) : Monitored := ⟨.setup (millis now), now⟩

/-- One iteration. -/
def Monitored.iterate (s : Monitored) (it : TimedIteration) : Monitored where
  firmware := (s.firmware.iterate it.iteration).1
  commanded := if s.firmware.recognises it.iteration then it.command else s.commanded

/-- Iterations one after the other. -/
def Monitored.run (s : Monitored) (its : List TimedIteration) : Monitored :=
  its.foldl Monitored.iterate s

/-- The firmware in an iteration when it comes to the test of the heartbeat. -/
def Firmware.beforeHeartBeat (fw : Firmware) (it : Iteration) : Firmware :=
  let fw := (Firmware.dispatch { fw with rx := fw.rx ++ it.arriving } it.now).1
  ((fw.readVoltage it.readings).readCurrents it.readings).checkLeftCurrent.checkRightCurrent

/-- The heartbeat is missed in an iteration. -/
def Firmware.BeatMissed (fw : Firmware) (it : Iteration) : Prop :=
  heartBeatMs < it.readings.now - (fw.beforeHeartBeat it).startTime

/-- What is left of the iteration are the last two checks. -/
theorem Firmware.iterate_eq (fw : Firmware) (it : Iteration) :
    (fw.iterate it).1 =
      ((fw.beforeHeartBeat it).checkHeartBeat it.readings).checkKilled it.readings := rfl

/-! ## What the parts of `loop` do to the heartbeat -/

/-- A command notes its time. -/
theorem Firmware.handle_of_command (fw : Firmware) {m : Message} (hm : IsCommand m) (now : UInt32) :
    (fw.handle m now).1.startTime = now := by
  unfold handle
  split_ifs
  any_goals rfl
  -- The branch that is left is that of the other types.
  simp_all [IsCommand]

/-- Any other message does nothing. -/
theorem Firmware.handle_of_not_command (fw : Firmware) {m : Message} (hm : ¬ IsCommand m)
    (now : UInt32) : (fw.handle m now).1 = fw := by
  obtain ⟨hdrive, hvoltage, hcurrent, hclear⟩ := by simpa only [IsCommand, not_or] using hm
  unfold handle
  rw [if_neg hdrive, if_neg hvoltage, if_neg hcurrent, if_neg hclear]

/-- Without a message only bytes are taken. -/
theorem Firmware.dispatch_of_no_message {fw : Firmware} {now : UInt32}
    (h : (fw.dispatch now).2 = none) : ∃ rx, (fw.dispatch now).1 = { fw with rx } := by
  unfold dispatch at h ⊢
  split
  · exact ⟨_, rfl⟩
  · rename_i packet rx hnext
    split
    · exact ⟨_, rfl⟩
    · rename_i m hpacket
      simp [hnext, hpacket] at h

/-- An iteration that recognises a command has noted its time before the checks. -/
theorem Firmware.dispatch_of_recognises {fw : Firmware} {it : Iteration}
    (h : fw.recognises it = true) :
    (Firmware.dispatch { fw with rx := fw.rx ++ it.arriving } it.now).1.startTime = it.now := by
  obtain ⟨⟨m, reply⟩, hserved, hm⟩ := (Option.any_eq_true _ _).mp h
  obtain ⟨rx, hdispatch⟩ := Firmware.dispatch_of_message hserved
  rw [hdispatch]
  exact Firmware.handle_of_command _ (of_decide_eq_true hm) it.now

/-- One that recognises none has left the time and the motors. -/
theorem Firmware.dispatch_of_not_recognises {fw : Firmware} {it : Iteration}
    (h : fw.recognises it = false) :
    ∃ rx, (Firmware.dispatch { fw with rx := fw.rx ++ it.arriving } it.now).1 =
      { fw with rx } := by
  cases hserved : (Firmware.dispatch { fw with rx := fw.rx ++ it.arriving } it.now).2 with
  | none => exact Firmware.dispatch_of_no_message hserved
  | some served =>
    obtain ⟨m, reply⟩ := served
    have hm : ¬ IsCommand m := of_decide_eq_false ((Option.any_eq_false _ _).mp h _ hserved)
    obtain ⟨rx, hdispatch⟩ := Firmware.dispatch_of_message hserved
    rw [Firmware.handle_of_not_command _ hm] at hdispatch
    exact ⟨rx, hdispatch⟩

/-- The checks note the time anew when the heartbeat is missed. -/
theorem Firmware.measureAndCheck_startTime (fw : Firmware) (r : Readings) :
    (fw.measureAndCheck r).startTime =
      if heartBeatMs < r.now - fw.startTime then r.restart else fw.startTime := by
  let read := (fw.readVoltage r).readCurrents r
  have hstart : read.checkLeftCurrent.checkRightCurrent.startTime = fw.startTime :=
    read.checkCurrents_startTime
  have hkilled (fw : Firmware) : (fw.checkKilled r).startTime = fw.startTime := by
    unfold checkKilled
    split_ifs <;> rfl
  unfold measureAndCheck checkHealth
  rw [hkilled, checkHeartBeat, hstart]
  split_ifs
  · rfl
  · exact hstart

/-- Motors that are off stay off in the checks. -/
theorem Firmware.measureAndCheck_of_off {fw : Firmware} (h : fw.pwm = ⟨0, 0, 0, 0⟩) (r : Readings) :
    (fw.measureAndCheck r).pwm = ⟨0, 0, 0, 0⟩ := by
  obtain ⟨hleft, hright⟩ := fw.pwm.eq_zero_iff.mp h
  exact (fw.measureAndCheck_off_iff r).mpr (.inr (.inr ⟨.inl hleft, .inl hright⟩))

/-! ## The firmware as a watchdog -/

/-- The counter of the true times. -/
def rollover : ℕ := 2 ^ 32

/-- `HEART_BEAT_MS`. -/
def heartBeatPeriod : ℕ := heartBeatMs.toNat

/-- The test of the heartbeat is that of a watchdog. -/
theorem missed_iff_expires {w : Watchdog} {now : ℕ} (h : w.noted ≤ now) :
    heartBeatMs < millis now - millis w.noted ↔ w.Expires rollover heartBeatPeriod now := by
  have helapsed : (millis now - millis w.noted).toNat = elapsed rollover w.noted now := by
    unfold millis elapsed rollover
    rw [UInt32.toNat_sub, UInt32.toNat_ofNat', UInt32.toNat_ofNat']
    omega
  rw [UInt32.lt_iff_toNat_lt, helapsed]
  rfl

/-- The firmware is a watchdog that its commands feed, and that has put the motors off when it has
tripped. -/
structure Monitored.Guards (s : Monitored) (w : Watchdog) : Prop where
  commanded : s.commanded = w.fed
  startTime : s.firmware.startTime = millis w.noted
  off : w.tripped = true → s.firmware.pwm = ⟨0, 0, 0, 0⟩

/-- The watchdog when an iteration comes to its test: a command has fed it. -/
def Monitored.fed (s : Monitored) (w : Watchdog) (it : TimedIteration) : Watchdog :=
  if s.firmware.recognises it.iteration then w.feed it.command else w

/-- The first part of `loop` feeds the watchdog. -/
theorem Monitored.Guards.dispatch {s : Monitored} {w : Watchdog} (h : s.Guards w)
    (it : TimedIteration) :
    let fw := s.firmware
    let dispatched :=
      (Firmware.dispatch { fw with rx := fw.rx ++ it.arriving } (millis it.command)).1
    Guards ⟨dispatched, (s.iterate it).commanded⟩ (s.fed w it) := by
  intro fw dispatched
  unfold fed iterate
  cases hcommand : s.firmware.recognises it.iteration with
  | true => exact ⟨rfl, Firmware.dispatch_of_recognises hcommand, nofun⟩
  | false =>
    obtain ⟨rx, hdispatch⟩ := Firmware.dispatch_of_not_recognises hcommand
    have hdispatched : dispatched = { fw with rx } := hdispatch
    rw [hdispatched]
    exact ⟨h.commanded, h.startTime, h.off⟩

/-- The second part of `loop` tests it. -/
theorem Monitored.Guards.measureAndCheck {s : Monitored} {w : Watchdog} (h : s.Guards w)
    {it : TimedIteration} (hnoted : w.noted ≤ it.check) :
    Guards ⟨s.firmware.measureAndCheck it.iteration.readings, s.commanded⟩
      (w.test rollover heartBeatPeriod it.check it.restart) := by
  have hmissed : heartBeatMs < it.iteration.readings.now - s.firmware.startTime ↔
      w.Expires rollover heartBeatPeriod it.check := by
    rw [h.startTime]
    exact missed_iff_expires hnoted
  have hstart := s.firmware.measureAndCheck_startTime it.iteration.readings
  unfold Watchdog.test
  split_ifs with hexpires
  · rw [if_pos (hmissed.mpr hexpires)] at hstart
    have hoff := (s.firmware.measureAndCheck_off_iff it.iteration.readings).mpr
      (.inr (.inl (hmissed.mpr hexpires)))
    exact ⟨h.commanded, hstart, fun _ => hoff⟩
  · rw [if_neg (hexpires ∘ hmissed.mp)] at hstart
    exact ⟨h.commanded, hstart.trans h.startTime, fun htripped =>
      Firmware.measureAndCheck_of_off (h.off htripped) _⟩

/-- An iteration feeds the watchdog, if it recognises a command, and tests it. -/
theorem Monitored.Guards.iterate {s : Monitored} {w : Watchdog} (h : s.Guards w)
    {it : TimedIteration} (hnoted : (s.fed w it).noted ≤ it.check) :
    (s.iterate it).Guards
      ((s.fed w it).test rollover heartBeatPeriod it.check it.restart) :=
  (h.dispatch it).measureAndCheck hnoted

/-- The heartbeat is missed when the test of the watchdog trips it. -/
theorem Monitored.Guards.beatMissed_iff {s : Monitored} {w : Watchdog} (h : s.Guards w)
    {it : TimedIteration} (hnoted : (s.fed w it).noted ≤ it.check) :
    s.firmware.BeatMissed it.iteration ↔
      (s.fed w it).Expires rollover heartBeatPeriod it.check := by
  rw [← missed_iff_expires hnoted, ← (h.dispatch it).startTime]
  unfold Firmware.BeatMissed Firmware.beforeHeartBeat
  rw [Firmware.checkCurrents_startTime]
  rfl

/-! ## Runs -/

/-- A sound watchdog is so when it is tested. -/
theorem Monitored.sound_fed {s : Monitored} {w : Watchdog} {now : ℕ}
    (hw : w.Sound heartBeatPeriod now) {it : TimedIteration} (hcommand : now ≤ it.command)
    (hcheck : it.command ≤ it.check) :
    (s.fed w it).Sound heartBeatPeriod it.check ∧ (s.fed w it).tested = w.tested := by
  unfold fed
  split_ifs
  · exact ⟨(hw.mono hcommand).feed.mono hcheck, rfl⟩
  · exact ⟨hw.mono (hcommand.trans hcheck), rfl⟩

/-- `2 ^ 31` milliseconds between the tests are close enough for the period. -/
theorem period_add_le_rollover : heartBeatPeriod + 2 ^ 31 ≤ rollover := by decide

/-- In a timely run from start-up, the firmware is a sound watchdog whenever another iteration
follows. -/
theorem Monitored.guards_run {s : Monitored} {w : Watchdog} {now : ℕ} (hguards : s.Guards w)
    (hw : w.Sound heartBeatPeriod now) {its : List TimedIteration} {it : TimedIteration}
    (h : Timely w.tested now (its ++ [it])) :
    ∃ w now, (s.run its).Guards w ∧ w.Sound heartBeatPeriod now ∧ Timely w.tested now [it] := by
  induction its generalizing s w now with
  | nil => exact ⟨w, now, hguards, hw, h⟩
  | cons first its ih =>
    obtain ⟨hcommand, hcheck, hrestart, hgap, hrest⟩ := h
    obtain ⟨hfed, htested⟩ := Monitored.sound_fed (s := s) hw hcommand hcheck
    have hsound := hfed.test period_add_le_rollover (htested ▸ hgap) hrestart
    have hstep := hguards.iterate hfed.noted_le
    exact ih hstep hsound (by simpa using hrest)

/-- A heartbeat that is not missed changes nothing in an iteration. -/
theorem Firmware.iterate_of_not_missed {fw : Firmware} {it : Iteration} (h : ¬ fw.BeatMissed it) :
    (fw.iterate it).1 = (fw.beforeHeartBeat it).checkKilled it.readings := by
  rw [Firmware.iterate_eq, Firmware.checkHeartBeat]
  exact congrArg (Firmware.checkKilled · _) (if_neg h)

/-- In every run from start-up whose tests are less than `2 ^ 31` milliseconds apart, all motors are
off at the end of an iteration whose test comes more than `HEART_BEAT_MS` after the last command, or
after start-up; and the test finds the heartbeat missed only then, and changes nothing before. -/
theorem heart_beat (start : ℕ) (its : List TimedIteration) (it : TimedIteration)
    (h : Timely start start (its ++ [it])) :
    let before := (Monitored.setup start).run its
    let after := before.iterate it
    (after.commanded + heartBeatMs.toNat < it.check → after.firmware.pwm = ⟨0, 0, 0, 0⟩) ∧
      (before.firmware.BeatMissed it.iteration →
        after.commanded + heartBeatMs.toNat < it.check) ∧
      (it.check ≤ after.commanded + heartBeatMs.toNat → after.firmware =
        (before.firmware.beforeHeartBeat it.iteration).checkKilled it.iteration.readings) := by
  intro before after
  have hsetup : (Monitored.setup start).Guards (.start start) := ⟨rfl, rfl, nofun⟩
  obtain ⟨w, now, hguards, hw, hcommand, hcheck, hrestart, hgap, -⟩ :=
    Monitored.guards_run hsetup (Watchdog.sound_start _ start) h
  obtain ⟨hfed, htested⟩ := Monitored.sound_fed (s := before) hw hcommand hcheck
  have hafter : after.Guards _ := hguards.iterate hfed.noted_le
  have hcommanded : after.commanded = (before.fed w it).fed := by
    rw [hafter.commanded, Watchdog.test_fed]
  have hlate : before.firmware.BeatMissed it.iteration →
      after.commanded + heartBeatMs.toNat < it.check := by
    intro hmissed
    rw [hcommanded]
    exact Watchdog.lt_of_expires hfed ((hguards.beatMissed_iff hfed.noted_le).mp hmissed)
  refine ⟨fun hpassed => ?_, hlate, fun hearly => ?_⟩
  · rw [hcommanded] at hpassed
    exact hafter.off (hfed.test_tripped period_add_le_rollover (htested ▸ hgap) hpassed)
  · exact Firmware.iterate_of_not_missed fun hmissed => absurd (hlate hmissed) (not_lt.mpr hearly)

/-- An iteration at one true time, with the motors not killed and no current. -/
def TimedIteration.at (arriving : List UInt8) (time : ℕ) : TimedIteration :=
  let r := Readings.at 1023 0 0 (millis time)
  ⟨arriving, r.battery, r.lMotorC, r.rMotorC, r.killed, time, time, time⟩

/-- The motors are switched on before the counter rolls over, and off five seconds later. -/
theorem heart_beat_across_rollover :
    let before := (Monitored.setup (2 ^ 32 - 100)).run
      [.at (Message.bytes ⟨driveCmd, ⟨255, 0, 255, 0⟩⟩) (2 ^ 32 - 50), .at [] (2 ^ 32 + 4950)]
    before.firmware.pwm = ⟨255, 0, 255, 0⟩ ∧
      (before.iterate (.at [] (2 ^ 32 + 4951))).firmware.pwm = ⟨0, 0, 0, 0⟩ := by
  refine ⟨by decide, ?_⟩
  exact (heart_beat (2 ^ 32 - 100) _ (.at [] (2 ^ 32 + 4951)) (by decide)).1 (by decide)

end Guillemot.Motor
