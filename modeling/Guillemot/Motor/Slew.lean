import Mathlib.Algebra.Order.Group.Abs
import Mathlib.Algebra.Order.Group.Int
import Guillemot.Motor.System

/-!
# The steps of the duty cycles

The host goes from its copy of the speeds towards the targets in steps of `MaxStep`. `SlewLimited`
says that the duty cycles follow in such steps. They do in every run in which the copy is what the
firmware applies whenever the next speeds are computed from it, and in which the firmware stops no
motor while a drive message may still be executed (`CopyInStep`). They do not in all runs: the host
is not told when the firmware stops a motor.

The invariant (`RampInStep`) is on one list, the duty cycles that are applied followed by those of
the drive messages that may still be executed: any two of them are at most a step apart. So the
messages may be executed or refused, and the last one repeated.
-/

namespace Guillemot.Motor

/-! ## Speeds in messages -/

/-- The signed duty cycles of the left and the right motor. -/
def Pwm.speeds (p : Pwm) : ℤ × ℤ := (p.left, p.right)

/-- Two pairs of speeds are at most `MaxStep` apart. -/
def InStep (v w : ℤ × ℤ) : Prop := |w.1 - v.1| ≤ maxStep ∧ |w.2 - v.2| ≤ maxStep

/-- The speeds that the drive messages in a list set. -/
def driveSpeeds (ms : List Message) : List (ℤ × ℤ) :=
  (ms.filter fun m => m.type = driveCmd).map fun m => (setMotors m.data).speeds

theorem InStep.refl (v : ℤ × ℤ) : InStep v v := by
  simp [InStep, maxStep]

@[simp]
theorem driveSpeeds_append (ms ms' : List Message) :
    driveSpeeds (ms ++ ms') = driveSpeeds ms ++ driveSpeeds ms' := by
  simp [driveSpeeds]

/-- A drive message sets the speeds in its data. -/
theorem driveSpeeds_cons_of_drive {m : Message} (hm : m.type = driveCmd) (ms : List Message) :
    driveSpeeds (m :: ms) = (setMotors m.data).speeds :: driveSpeeds ms := by
  simp [driveSpeeds, hm]

/-- Any other message sets none. -/
theorem driveSpeeds_of_ne {m : Message} (hm : m.type ≠ driveCmd) : driveSpeeds [m] = [] := by
  simp [driveSpeeds, hm]

/-- A message sets its own speeds at most. -/
theorem eq_of_mem_driveSpeeds {m : Message} {v : ℤ × ℤ} (hv : v ∈ driveSpeeds [m]) :
    v = (setMotors m.data).speeds := by
  by_cases hm : m.type = driveCmd
  · simpa [driveSpeeds, hm] using hv
  · rw [driveSpeeds_of_ne hm] at hv
    exact absurd hv List.not_mem_nil

/-- The target speeds are duty cycles. -/
theorem abs_filter_le (speed : ℤ) : |filter speed| ≤ 255 := by
  rw [abs_le]
  simp only [filter]
  split_ifs <;> omega

/-- The next speed is at most `MaxStep` away. -/
theorem abs_stepTowards_sub_le (speed target : ℤ) :
    |stepTowards speed target - speed| ≤ maxStep := by
  rw [abs_le]
  simp only [stepTowards, maxStep]
  split_ifs <;> omega

/-- The next speed is a duty cycle. -/
theorem abs_stepTowards_le {speed target : ℤ} (hspeed : |speed| ≤ 255) (htarget : |target| ≤ 255) :
    |stepTowards speed target| ≤ 255 := by
  rw [abs_le] at *
  simp only [stepTowards, maxStep]
  split_ifs <;> omega

/-- The signed duty cycles are those of bytes. -/
theorem Pwm.abs_left_le (p : Pwm) : |p.left| ≤ 255 := by
  have hforward := p.lMotorA.toNat_lt
  have hreverse := p.lMotorB.toNat_lt
  rw [abs_le, Pwm.left]
  omega

@[inherit_doc Pwm.abs_left_le]
theorem Pwm.abs_right_le (p : Pwm) : |p.right| ≤ 255 := by
  have hforward := p.rMotorA.toNat_lt
  have hreverse := p.rMotorB.toNat_lt
  rw [abs_le, Pwm.right]
  omega

/-- A duty cycle fits into a byte. -/
theorem toNat_toByte {n : ℤ} (h0 : 0 ≤ n) (hn : n ≤ 255) : ((toByte n).toNat : ℤ) = n := by
  unfold toByte
  rw [UInt8.toNat_ofNat_of_lt' (by show (n % 256).toNat < 256; omega)]
  omega

/-- The two bytes for a speed, forward and reverse, hold it. -/
theorem toNat_forward_sub_reverse {speed : ℤ} (h : |speed| ≤ 255) :
    ((if 0 < speed then toByte speed else 0).toNat : ℤ) -
      (if 0 < speed then 0 else toByte (-speed)).toNat = speed := by
  rw [abs_le] at h
  -- One of the two bytes is zero, and the other one holds the magnitude.
  split_ifs with hpos
  · rw [toNat_toByte (by omega) (by omega)]
    simp
  · rw [toNat_toByte (by omega) (by omega)]
    simp

/-- The message that is created from two speeds sets them. -/
theorem speeds_createMessageFromSpeed {right left : ℤ} (hright : |right| ≤ 255)
    (hleft : |left| ≤ 255) :
    (setMotors (createMessageFromSpeed right left).data).speeds = (left, right) := by
  simp only [Pwm.speeds, Pwm.left, Pwm.right, setMotors, createMessageFromSpeed]
  rw [toNat_forward_sub_reverse hright, toNat_forward_sub_reverse hleft]

/-! ## Runs -/

/-- The message that the host may send again. -/
def Host.awaited (h : Host) : List Message := if h.awaitingResponse then [h.currentMessage] else []

/-- The speeds of the drive messages that may still be executed: those on their way, and the one
that may be sent again. -/
def Exchange.outstanding (x : Exchange) : List (ℤ × ℤ) :=
  driveSpeeds x.history.requests ++ driveSpeeds x.host.awaited

/-- Every drive message that was dispatched changed the duty cycles by at most `MaxStep`. -/
def SlewLimited (h : History) : Prop :=
  ∀ s ∈ h.served, s.request.type = driveCmd → InStep s.before.speeds s.after.speeds

/-- `CheckMotor` computes the next speeds only when the host's copy is what the firmware applies,
and so is what the drive messages on their way set. `checkHealth` changes what is applied only when
no drive message may still be executed. -/
def CopyInStep (x : Exchange) : Label → Prop
  | .checkMotor t _ =>
    x.host.MotorDue t.now = true →
      (x.host.leftSpeed, x.host.rightSpeed) = x.firmware.pwm.speeds ∧
        ∀ v ∈ driveSpeeds x.history.requests, v = x.firmware.pwm.speeds
  | .measureAndCheck r =>
    (x.firmware.measureAndCheck r).pwm.speeds ≠ x.firmware.pwm.speeds → x.outstanding = []
  | _ => True

instance (x : Exchange) (l : Label) : Decidable (CopyInStep x l) := by
  unfold CopyInStep
  split <;> infer_instance

/-- What the runs under `CopyInStep` keep. -/
structure RampInStep (x : Exchange) : Prop where
  /-- The left target is a duty cycle. -/
  leftTarget : |x.host.leftTargetSpeed| ≤ 255
  /-- The right target is a duty cycle. -/
  rightTarget : |x.host.rightTargetSpeed| ≤ 255
  /-- What is applied and what may still be executed is in step. -/
  inStep : (x.firmware.pwm.speeds :: x.outstanding).Pairwise InStep
  /-- What was executed was in step. -/
  executed : ∀ s ∈ x.history.served, InStep s.before.speeds s.after.speeds

/-- A response ends what the host waits for, or changes nothing about it. -/
theorem Host.handleResponse_awaited (h : Host) (response : Message) :
    (h.handleResponse response).1.awaited = h.awaited ∨
      (h.handleResponse response).1.awaited = [] := by
  unfold handleResponse
  split_ifs
  all_goals first
    | exact .inl rfl
    | exact .inr rfl

/-- A response changes no target. -/
theorem Host.handleResponse_targets (h : Host) (response : Message) :
    (h.handleResponse response).1.leftTargetSpeed = h.leftTargetSpeed ∧
      (h.handleResponse response).1.rightTargetSpeed = h.rightTargetSpeed := by
  unfold handleResponse
  split_ifs <;> exact ⟨rfl, rfl⟩

/-- The next speeds are at most `MaxStep` from what the firmware applies, if this is the host's
copy. -/
theorem RampInStep.motorMessage {x : Exchange} (hx : RampInStep x)
    (hcopy : (x.host.leftSpeed, x.host.rightSpeed) = x.firmware.pwm.speeds) :
    InStep x.firmware.pwm.speeds (setMotors x.host.motorMessage.data).speeds := by
  obtain ⟨hleft, hright⟩ := Prod.mk.inj hcopy
  have hl := abs_stepTowards_le (hleft ▸ x.firmware.pwm.abs_left_le) hx.leftTarget
  have hr := abs_stepTowards_le (hright ▸ x.firmware.pwm.abs_right_le) hx.rightTarget
  unfold Host.motorMessage
  rw [speeds_createMessageFromSpeed hr hl, ← hcopy]
  exact ⟨abs_stepTowards_sub_le _ _, abs_stepTowards_sub_le _ _⟩

/-- A message is sent: if it is a drive message, its speeds have to be in step with what is applied
and what is on its way. -/
theorem RampInStep.sends {x : Exchange} (hx : RampInStep x) (hl : x.history.Linked) {host : Host}
    {m : Message} (lost : Bool) (hawaited : host.awaited = [m])
    (hleft : host.leftTargetSpeed = x.host.leftTargetSpeed)
    (hright : host.rightTargetSpeed = x.host.rightTargetSpeed)
    (hm : ∀ w ∈ driveSpeeds [m],
      ∀ v ∈ x.firmware.pwm.speeds :: driveSpeeds x.history.requests, InStep v w) :
    RampInStep (x.sends (host, some m) lost) := by
  refine ⟨?_, ?_, ?_, hx.executed⟩
  · calc |host.leftTargetSpeed| = |x.host.leftTargetSpeed| := by rw [hleft]
      _ ≤ 255 := hx.leftTarget
  · calc |host.rightTargetSpeed| = |x.host.rightTargetSpeed| := by rw [hright]
      _ ≤ 255 := hx.rightTarget
  · -- What is on its way is followed by copies of the message only.
    have hcopies : ∀ w ∈ driveSpeeds (carried lost (some m)).toList ++ driveSpeeds [m],
        w ∈ driveSpeeds [m] := by
      intro w hw
      rcases List.mem_append.mp hw with hw | hw
      · cases lost with
        | true => exact absurd hw List.not_mem_nil
        | false => exact hw
      · exact hw
    simp only [Exchange.sends, Exchange.outstanding, hl.requests_send, driveSpeeds_append, hawaited]
    rw [List.append_assoc, ← List.cons_append, List.pairwise_append]
    refine ⟨hx.inStep.sublist ((List.sublist_append_left _ _).cons_cons _), ?_,
      fun v hv w hw => hm w (hcopies w hw) v hv⟩
    refine List.pairwise_of_forall_mem_list fun v hv w hw => ?_
    rw [eq_of_mem_driveSpeeds (hcopies v hv), eq_of_mem_driveSpeeds (hcopies w hw)]
    exact InStep.refl _

/-- A response is handled: what may still be executed does not become more. -/
theorem RampInStep.take {x : Exchange} (hx : RampInStep x) (response : Message) :
    RampInStep (x.take response) := by
  obtain ⟨hleft, hright⟩ := x.host.handleResponse_targets response
  refine ⟨?_, ?_, ?_, hx.executed⟩
  · calc |(x.host.handleResponse response).1.leftTargetSpeed|
        = |x.host.leftTargetSpeed| := by rw [hleft]
      _ ≤ 255 := hx.leftTarget
  · calc |(x.host.handleResponse response).1.rightTargetSpeed|
        = |x.host.rightTargetSpeed| := by rw [hright]
      _ ≤ 255 := hx.rightTarget
  · have hrequests : (x.take response).history.requests = x.history.requests := rfl
    refine hx.inStep.sublist (List.Sublist.cons_cons _ ?_)
    unfold Exchange.outstanding
    rw [hrequests]
    refine List.Sublist.append_left ?_ _
    unfold Exchange.take
    rcases x.host.handleResponse_awaited response with hsame | hnone
    · rw [hsame]
    · rw [hnone]
      exact List.nil_sublist _

/-- A message is dispatched: a drive message that is executed becomes the head of the list, and one
that is refused leaves it. -/
theorem RampInStep.serve {x : Exchange} (hx : RampInStep x) {m : Message} {rest : List Message}
    (hm : x.history.requests = m :: rest) (now : UInt32) (lost : Bool) :
    RampInStep (x.serve m now lost) := by
  have hrequests : (x.serve m now lost).history.requests = rest := History.requests_serve hm
  have hserved : ∀ s ∈ (x.serve m now lost).history.served, s ∈ x.history.served ∨
      s.before = x.firmware.pwm ∧ s.after = (x.firmware.handle m now).1.pwm := by
    intro s hs
    rcases List.mem_append.mp hs with hs | hs
    · exact .inl hs
    · obtain rfl := List.mem_singleton.mp hs
      exact .inr ⟨rfl, rfl⟩
  have hall := hx.inStep
  unfold Exchange.outstanding at hall
  rw [hm] at hall
  rcases x.firmware.handle_pwm m now with hsame | ⟨hdrive, hset⟩
  · -- The duty cycles stay.
    refine ⟨hx.leftTarget, hx.rightTarget, ?_, fun s hs => ?_⟩
    · unfold Exchange.outstanding
      rw [hrequests]
      simp only [Exchange.serve, hsame]
      refine hall.sublist (List.Sublist.cons_cons _ (List.Sublist.append_right ?_ _))
      exact ((List.sublist_cons_self m rest).filter _).map _
    · rcases hserved s hs with hs | ⟨hbefore, hafter⟩
      · exact hx.executed s hs
      · rw [hbefore, hafter, hsame]
        exact InStep.refl _
  · -- The duty cycles become those of the message, the second in the list.
    rw [driveSpeeds_cons_of_drive hdrive, List.cons_append, ← hset] at hall
    refine ⟨hx.leftTarget, hx.rightTarget, ?_, fun s hs => ?_⟩
    · unfold Exchange.outstanding
      rw [hrequests]
      exact (List.pairwise_cons.mp hall).2
    · rcases hserved s hs with hs | ⟨hbefore, hafter⟩
      · exact hx.executed s hs
      · rw [hbefore, hafter]
        exact (List.pairwise_cons.mp hall).1 _ List.mem_cons_self

/-- The steps of the exchange keep `RampInStep`. -/
theorem RampInStep.invariant : Invariant CopyInStep RampInStep where
  setMotorSpeed _ right left hx := ⟨abs_filter_le left, abs_filter_le right, hx.inStep, hx.executed⟩
  take _ _ response _ _ _ hx := hx.take response
  checkMotor x t lost hl hC hx := by
    apply Exchange.keeps_checkMotor hx
    intro hdue
    obtain ⟨hcopy, honly⟩ := hC hdue
    refine hx.sends hl lost rfl rfl rfl ?_
    intro w hw v hv
    -- All that comes before the new speeds is what is applied.
    have hv : v = x.firmware.pwm.speeds := by
      rcases List.mem_cons.mp hv with hv | hv
      · exact hv
      · exact honly v hv
    rw [hv, eq_of_mem_driveSpeeds hw]
    exact hx.motorMessage hcopy
  checkQuery x t junk lost hl _ hx := by
    apply Exchange.keeps_checkQuery hx
    intro q r l v _
    -- A query sets no speeds.
    have hq : (q.message junk).type ≠ driveCmd := by
      cases q <;> simp [Query.message, currentCmd, voltageCmd, driveCmd]
    refine hx.sends hl lost rfl rfl rfl ?_
    intro w hw
    rw [driveSpeeds_of_ne hq] at hw
    exact absurd hw List.not_mem_nil
  resend x now sent lost hl hx := by
    apply Exchange.keeps_resend hx
    intro hawaiting
    refine hx.sends hl lost rfl rfl rfl ?_
    intro w hw v hv
    -- The current message is the last one in the list already.
    have hstep := hx.inStep
    unfold Exchange.outstanding Host.awaited at hstep
    rw [if_pos hawaiting, ← List.cons_append, List.pairwise_append] at hstep
    exact hstep.2.2 v hv w hw
  serve _ _ _ now lost _ hm hx := hx.serve hm now lost
  measureAndCheck x r hC hx := by
    refine ⟨hx.leftTarget, hx.rightTarget, ?_, hx.executed⟩
    have hout : (x.measureAndCheck r).outstanding = x.outstanding := rfl
    rw [hout, Exchange.measureAndCheck]
    by_cases hsame : (x.firmware.measureAndCheck r).pwm.speeds = x.firmware.pwm.speeds
    · simp only [hsame]
      exact hx.inStep
    · -- A motor is stopped, but no drive message may still be executed.
      rw [hC hsame]
      exact List.pairwise_singleton _ _

/-- At the start both motors stand still. -/
theorem RampInStep.init (junk : Host) (now : UInt32) :
    RampInStep (System.init junk now).exchange := by
  refine ⟨?_, ?_, List.pairwise_singleton _ _, fun s hs => absurd hs List.not_mem_nil⟩
  all_goals
    simp [System.init, System.exchange, Host.new]

/-- In a run in which the host's copy of the speeds is in step, each drive message that is executed
changes the duty cycles by at most `MaxStep`. -/
theorem slew_limited (junk : Host) (now : UInt32) (t : System)
    (h : System.Reaches CopyInStep (.init junk now) t) : SlewLimited t.history :=
  fun s hs _ => (RampInStep.invariant.of_reaches (RampInStep.init junk now) h).2.executed s hs

/-- A run under `CopyInStep` in which both motors go from standing still to 40, in two steps. -/
theorem two_steps_to_forty : ∃ t : System,
    System.Reaches CopyInStep (.init .zero 0) t ∧
      t.firmware.pwm.speeds = (40, 40) ∧ SlewLimited t.history := by
  have hrun : (Steps.run System.step (fun s l => CopyInStep s.exchange l)
      (.setMotorSpeed (-40) (-40) :: spinOnce ⟨0, 70000⟩ 0 ++ loop 7 80 1023 0 0 ++
        spinOnce ⟨0, 110000⟩ 7 ++ loop 7 120 1023 0 0 ++ spinOnce ⟨0, 150000⟩ 7 ++
        loop 7 160 1023 0 0) (.init .zero 0)).map
      (fun t => t.firmware.pwm.speeds) = some (40, 40) := by
    decide +kernel
  obtain ⟨t, ht, hpwm⟩ := Option.map_eq_some_iff.mp hrun
  have hreach := Steps.moves_of_run ht
  exact ⟨t, hreach, hpwm, slew_limited .zero 0 t hreach⟩

/-- The host has its motors go at 20 when the kill switch is pressed for the time of one `loop`.
They stop, but the host goes on to 40. -/
def killedBetweenSteps : List Label :=
  .setMotorSpeed (-40) (-40) :: spinOnce ⟨0, 70000⟩ 0 ++ loop 7 80 1023 0 0 ++
    spinOnce ⟨0, 110000⟩ 7 ++ loop 7 120 0 0 0 ++ loop 0 130 1023 0 0 ++
    spinOnce ⟨0, 150000⟩ 7 ++ loop 7 160 1023 0 0

/-- Both motors go from standing still to 40 at once. -/
theorem one_step_to_forty : ¬ ∀ (junk : Host) (now : UInt32) (t : System),
    System.Reaches (fun _ _ => True) (.init junk now) t → SlewLimited t.history := by
  intro h
  have hrun : (Steps.run System.step (fun _ _ => True) killedBetweenSteps (.init .zero 0)).map
      (fun t => t.history.served[2]?.map fun s =>
        (s.request.type, s.before.speeds, s.after.speeds)) =
        some (some (driveCmd, (0, 0), (40, 40))) := by
    decide +kernel
  obtain ⟨t, ht, hserved⟩ := Option.map_eq_some_iff.mp hrun
  obtain ⟨s, hs, hentry⟩ := Option.map_eq_some_iff.mp hserved
  obtain ⟨hdrive, hbefore, hafter⟩ : s.request.type = driveCmd ∧ s.before.speeds = (0, 0) ∧
      s.after.speeds = (40, 40) := by simpa using hentry
  have hstep := h .zero 0 t (Steps.moves_of_run ht) s (List.mem_of_getElem? hs) hdrive
  rw [hbefore, hafter] at hstep
  exact absurd hstep.1 (by decide)

end Guillemot.Motor
