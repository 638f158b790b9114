import Mathlib.Data.Rat.Floor
import Mathlib.Data.Int.Order.Basic
import Mathlib.Tactic.Linarith
import Guillemot.Library.Toward
import Guillemot.Motor.HostRuns
import Guillemot.Motor.Slew

/-!
# The speeds in motor frames

Whatever is on the line, the speeds that the host has had acknowledged and those that it is to reach
are duty cycles (`Host.InRange`), so that the next ones, which lie between, fit the bytes of a motor
frame (`motor_frames_faithful`).

When every motor frame is acknowledged by its own data, an acknowledgement is one step of `toward`.
The steps add up, whatever is asked and answered between them, and each motor keeps to its own way
(`ramp_converges`).
-/

namespace Guillemot.Motor

open StopAndWait (Event)

/-! ## Speeds and their bytes -/

/-- Two bytes, forward and reverse, hold a speed: it is their difference, and one is zero. -/
def HoldSpeed (forward reverse : UInt8) (speed : ℤ) : Prop :=
  (forward.toNat : ℤ) - reverse.toNat = speed ∧ (forward = 0 ∨ reverse = 0)

/-- The next speed on the way from an acknowledged one to a target. -/
structure NextSpeed (acknowledged target next : ℤ) : Prop where
  between : next ∈ Set.uIcc acknowledged target
  step : |next - acknowledged| ≤ maxStep
  magnitude : |next| ≤ 255

/-- The step of `CheckMotor` is a move towards the target. -/
theorem stepTowards_eq (speed target : ℤ) :
    stepTowards speed target = toward maxStep speed target := by
  rcases le_total speed target with h | h
  · rw [toward_of_le h]
    simp only [stepTowards, maxStep]
    split_ifs <;> omega
  · rw [toward_of_ge (by decide) h]
    simp only [stepTowards, maxStep]
    split_ifs <;> omega

/-- The step of `CheckMotor` is a next speed. -/
theorem nextSpeed_stepTowards {speed target : ℤ} (hspeed : |speed| ≤ 255)
    (htarget : |target| ≤ 255) : NextSpeed speed target (stepTowards speed target) where
  between := by
    rw [stepTowards_eq]
    exact toward_mem_uIcc (by decide) speed target
  step := abs_stepTowards_sub_le speed target
  magnitude := abs_stepTowards_le hspeed htarget

/-- The bytes of a message that is created hold its speeds. -/
theorem holdSpeed_of_abs_le {speed : ℤ} (h : |speed| ≤ 255) :
    HoldSpeed (if 0 < speed then toByte speed else 0) (if 0 < speed then 0 else toByte (-speed))
      speed := by
  refine ⟨toNat_forward_sub_reverse h, ?_⟩
  split_ifs
  · exact .inr rfl
  · exact .inl rfl

/-- `processResponse` takes the speed from the bytes that hold it. -/
theorem responseSpeed_of_holdSpeed {forward reverse : UInt8} {speed : ℤ}
    (h : HoldSpeed forward reverse speed) : responseSpeed forward reverse = speed := by
  obtain ⟨hdiff, hzero⟩ := h
  unfold responseSpeed
  split_ifs with hforward
  · have hreverse : reverse = 0 := hzero.resolve_left hforward
    rw [← hdiff, hreverse]
    simp
  · rw [← hdiff, not_not.mp hforward]
    simp

/-- What `processResponse` takes from any bytes is a duty cycle. -/
theorem abs_responseSpeed_le (forward reverse : UInt8) : |responseSpeed forward reverse| ≤ 255 := by
  have hforward := forward.toNat_lt
  have hreverse := reverse.toNat_lt
  rw [abs_le, responseSpeed]
  split_ifs <;> omega

/-! ## All frames -/

/-- The speeds of the host are duty cycles. -/
structure Host.InRange (h : Host) : Prop where
  left : |h.leftSpeed| ≤ 255
  right : |h.rightSpeed| ≤ 255
  leftTarget : |h.leftTargetSpeed| ≤ 255
  rightTarget : |h.rightTargetSpeed| ≤ 255

/-- The host as it is constructed stands still. -/
theorem Host.new_inRange (junk : Host) : (Host.new junk).InRange := by
  constructor <;> simp [Host.new]

/-- The handling of a response keeps the speeds in range. -/
theorem Host.Handles.inRange {h h' : Host} {response : Message}
    (hhandles : h.Handles response h') (hrange : h.InRange) : h'.InRange := by
  obtain ⟨hleft, hright, hleftTarget, hrightTarget⟩ := hrange
  cases hhandles with
  | drive =>
    exact ⟨abs_responseSpeed_le _ _, abs_responseSpeed_le _ _, hleftTarget, hrightTarget⟩
  | error | current | voltage | ignored => exact ⟨hleft, hright, hleftTarget, hrightTarget⟩

/-- Every step keeps the speeds in range. -/
theorem Host.InRange.act {h : Host} (hrange : h.InRange) (s : HostStep) : (h.act s).1.InRange := by
  have hdoes := h.does_act s
  have hsame : ∀ h' : Host, h'.leftSpeed = h.leftSpeed → h'.rightSpeed = h.rightSpeed →
      h'.leftTargetSpeed = h.leftTargetSpeed → h'.rightTargetSpeed = h.rightTargetSpeed →
      h'.InRange := by
    intro h' h1 h2 h3 h4
    exact ⟨h1 ▸ hrange.left, h2 ▸ hrange.right, h3 ▸ hrange.leftTarget, h4 ▸ hrange.rightTarget⟩
  generalize (h.act s).1 = h', (h.act s).2 = e at hdoes
  cases hdoes with
  | setMotorSpeed right left =>
    exact ⟨hrange.left, hrange.right, abs_filter_le left, abs_filter_le right⟩
  | idle s buffer => exact hsame _ rfl rfl rfl rfl
  | handle b response hhandles =>
    obtain ⟨hleft, hright, hleftTarget, hrightTarget⟩ := hhandles.inRange hrange
    exact ⟨hleft, hright, hleftTarget, hrightTarget⟩
  | motor t hfree => exact hsame _ rfl rfl rfl rfl
  | query t junk q hfree =>
    obtain ⟨r, l, v, hnoted⟩ := h.noteQuery_sent t junk q
    rw [hnoted]
    exact hsame _ rfl rfl rfl rfl
  | resend now sent hawaiting => exact hsame _ rfl rfl rfl rfl

/-- What `CheckMotor` sends in a step is the message of the next speeds. -/
theorem Host.act_checkMotor {h : Host} {t : Clock} {m : Message}
    (hsent : (h.act (.checkMotor t)).2 = .request m) : m = h.motorMessage := by
  have hdoes := h.does_act (.checkMotor t)
  rw [hsent] at hdoes
  generalize (h.act (.checkMotor t)).1 = h' at hdoes
  cases hdoes
  rfl

/-- In every run of the host, a motor frame that `CheckMotor` sends holds for each motor the next
speed on the way from the acknowledged one to the target, and `processResponse` reads these speeds
from the data of the frame. -/
theorem motor_frames_faithful (junk : Host) (cs : List HostCall) (e : HostEntry)
    (he : e ∈ (Host.new junk).history cs) (t : Clock) (hstep : e.step = .checkMotor t) (m : Message)
    (hsent : e.event = .request m) :
    ∃ left right : ℤ,
      NextSpeed e.before.leftSpeed e.before.leftTargetSpeed left ∧
        NextSpeed e.before.rightSpeed e.before.rightTargetSpeed right ∧
        m.type = driveCmd ∧ HoldSpeed m.data.b0 m.data.b1 left ∧
        HoldSpeed m.data.b2 m.data.b3 right ∧
        ∀ h : Host, h.currentMessage.type = driveCmd →
          h.buffer = Message.bytes ⟨driveResp, m.data⟩ →
            h.processResponse.1.leftSpeed = left ∧ h.processResponse.1.rightSpeed = right := by
  have hrange := (Host.forall_history (fun h s hrange => hrange.act s) (Host.new_inRange junk)
    cs).1 e he
  obtain ⟨h, s⟩ := e
  obtain rfl : s = .checkMotor t := hstep
  obtain rfl := Host.act_checkMotor hsent
  have hleft := nextSpeed_stepTowards hrange.left hrange.leftTarget
  have hright := nextSpeed_stepTowards hrange.right hrange.rightTarget
  have hholdLeft := holdSpeed_of_abs_le hleft.magnitude
  have hholdRight := holdSpeed_of_abs_le hright.magnitude
  refine ⟨_, _, hleft, hright, rfl, hholdLeft, hholdRight, fun h' hcmd hbuffer => ?_⟩
  -- The frame is taken apart, and its data are the speeds of the host from then on.
  have hmessage := Message.ofBytes_bytes ⟨driveResp, h.motorMessage.data⟩
  rw [← hbuffer] at hmessage
  unfold Host.processResponse
  rw [hmessage]
  have herror : driveResp ≠ errorCmd := by decide
  simp only [Host.handleResponse, if_neg herror, if_true, hcmd, ne_eq, not_true, if_false]
  exact ⟨responseSpeed_of_holdSpeed hholdLeft, responseSpeed_of_holdSpeed hholdRight⟩

/-- A `spinOnce` at the time `t`, with some bytes available. -/
def Spin.at (t : Timeval) (available : List UInt8) : Spin :=
  ⟨available, ⟨t, t, t⟩, ⟨t, t, t⟩, ⟨0, 0, 0, 0⟩, t, t⟩

/-- The first frame towards 40 on the left and -10 on the right motor holds 20 and -10. -/
theorem first_frame_faithful :
    ∃ left right : ℤ, NextSpeed 0 40 left ∧ NextSpeed 0 (-10) right ∧ HoldSpeed 20 0 left ∧
      HoldSpeed 0 10 right := by
  let t : Clock := ⟨⟨0, 70000⟩, ⟨0, 70000⟩, ⟨0, 70000⟩⟩
  obtain ⟨left, right, hleft, hright, -, hholdLeft, hholdRight, -⟩ := motor_frames_faithful .zero
    [.setMotorSpeed 10 (-40), .spinOnce (.at ⟨0, 70000⟩ [])]
    ⟨Host.setMotorSpeed .zero 10 (-40), .checkMotor t⟩ (by decide) t rfl
    ⟨driveCmd, ⟨20, 0, 0, 10⟩⟩ (by decide)
  exact ⟨left, right, hleft, hright, hholdLeft, hholdRight⟩

/-! ## Ramps -/

/-- The data that a step acknowledges, when it handles the response to a motor frame. -/
def HostEntry.acknowledgement (e : HostEntry) : Option Data :=
  match e.event with
  | .response response =>
    if response.type = driveResp ∧ e.before.currentMessage.type = driveCmd then some response.data
    else none
  | _ => none

/-- A motor frame is acknowledged by an echo of its data, if it is. -/
def HostEntry.Echoes (e : HostEntry) : Prop :=
  e.acknowledgement = none ∨ e.acknowledgement = some e.before.currentMessage.data

instance (e : HostEntry) : Decidable e.Echoes := by
  unfold HostEntry.Echoes
  infer_instance

/-- The number of motor frames that are acknowledged. -/
def acknowledged (log : List HostEntry) : ℕ := (log.filterMap HostEntry.acknowledgement).length

/-- The motor frame that may still be acknowledged, if there is one, goes from the acknowledged
speeds towards the targets. -/
def Host.Aimed (h : Host) : Prop :=
  h.currentMessage.type = driveCmd → h.currentMessage = h.motorMessage

/-- A host on its way from `start` after `n` acknowledgements. -/
structure Host.OnRamp (start : Host) (n : ℕ) (h : Host) : Prop where
  inRange : h.InRange
  aimed : h.Aimed
  leftTarget : h.leftTargetSpeed = start.leftTargetSpeed
  rightTarget : h.rightTargetSpeed = start.rightTargetSpeed
  left : h.leftSpeed = toward (n • maxStep) start.leftSpeed start.leftTargetSpeed
  right : h.rightSpeed = toward (n • maxStep) start.rightSpeed start.rightTargetSpeed

/-- The distance of `n` steps is not negative. -/
theorem nsmul_maxStep_nonneg (n : ℕ) : 0 ≤ n • maxStep := nsmul_nonneg (by decide) n

/-- One step more. -/
theorem stepTowards_toward (n : ℕ) (speed target : ℤ) :
    stepTowards (toward (n • maxStep) speed target) target =
      toward ((n + 1) • maxStep) speed target := by
  rw [stepTowards_eq, toward_toward (nsmul_maxStep_nonneg n) (by decide), succ_nsmul]

/-- A step that leaves speeds and targets and sends no other motor frame leaves the host on its
ramp. -/
theorem Host.OnRamp.of_same {start h h' : Host} {n : ℕ} (hramp : start.OnRamp n h)
    (hleft : h'.leftSpeed = h.leftSpeed) (hright : h'.rightSpeed = h.rightSpeed)
    (hleftTarget : h'.leftTargetSpeed = h.leftTargetSpeed)
    (hrightTarget : h'.rightTargetSpeed = h.rightTargetSpeed)
    (hmessage : h'.currentMessage = h.currentMessage ∨ h'.currentMessage = h.motorMessage ∨
      h'.currentMessage.type ≠ driveCmd) : start.OnRamp n h' where
  inRange := ⟨hleft ▸ hramp.inRange.left, hright ▸ hramp.inRange.right,
    hleftTarget ▸ hramp.inRange.leftTarget, hrightTarget ▸ hramp.inRange.rightTarget⟩
  aimed := by
    have hmotor : h'.motorMessage = h.motorMessage := by
      simp only [Host.motorMessage, hleft, hright, hleftTarget, hrightTarget]
    intro hcmd
    rw [hmotor]
    rcases hmessage with hsame | hsent | hother
    · rw [hsame] at hcmd ⊢
      exact hramp.aimed hcmd
    · exact hsent
    · exact absurd hcmd hother
  leftTarget := hleftTarget.trans hramp.leftTarget
  rightTarget := hrightTarget.trans hramp.rightTarget
  left := hleft.trans hramp.left
  right := hright.trans hramp.right

/-- The echo of a motor frame takes the host one step further on its ramp. -/
theorem Host.OnRamp.acknowledge {start h : Host} {n : ℕ} (hramp : start.OnRamp n h)
    (hcmd : h.currentMessage.type = driveCmd) (buffer : List UInt8) :
    start.OnRamp (n + 1)
      { h with
        leftSpeed := responseSpeed h.currentMessage.data.b0 h.currentMessage.data.b1
        rightSpeed := responseSpeed h.currentMessage.data.b2 h.currentMessage.data.b3
        currentMessage.type := noMessage
        awaitingResponse := false
        buffer } := by
  have hleft := nextSpeed_stepTowards hramp.inRange.left hramp.inRange.leftTarget
  have hright := nextSpeed_stepTowards hramp.inRange.right hramp.inRange.rightTarget
  -- The message holds the next speeds of both motors.
  have hspeeds : responseSpeed h.currentMessage.data.b0 h.currentMessage.data.b1 =
        stepTowards h.leftSpeed h.leftTargetSpeed ∧
      responseSpeed h.currentMessage.data.b2 h.currentMessage.data.b3 =
        stepTowards h.rightSpeed h.rightTargetSpeed := by
    rw [hramp.aimed hcmd]
    exact ⟨responseSpeed_of_holdSpeed (holdSpeed_of_abs_le hleft.magnitude),
      responseSpeed_of_holdSpeed (holdSpeed_of_abs_le hright.magnitude)⟩
  rw [hspeeds.1, hspeeds.2]
  refine ⟨⟨hleft.magnitude, hright.magnitude, hramp.inRange.leftTarget, hramp.inRange.rightTarget⟩,
    nofun, hramp.leftTarget, hramp.rightTarget, ?_, ?_⟩
  · calc stepTowards h.leftSpeed h.leftTargetSpeed
        = stepTowards (toward (n • maxStep) start.leftSpeed start.leftTargetSpeed)
            start.leftTargetSpeed := by rw [hramp.left, hramp.leftTarget]
      _ = toward ((n + 1) • maxStep) start.leftSpeed start.leftTargetSpeed :=
          stepTowards_toward n start.leftSpeed start.leftTargetSpeed
  · calc stepTowards h.rightSpeed h.rightTargetSpeed
        = stepTowards (toward (n • maxStep) start.rightSpeed start.rightTargetSpeed)
            start.rightTargetSpeed := by rw [hramp.right, hramp.rightTarget]
      _ = toward ((n + 1) • maxStep) start.rightSpeed start.rightTargetSpeed :=
          stepTowards_toward n start.rightSpeed start.rightTargetSpeed

/-- A step that handles no response acknowledges nothing. -/
theorem HostEntry.acknowledgement_of_ne {e : HostEntry}
    (h : ∀ response, e.event ≠ .response response) : e.acknowledgement = none := by
  unfold acknowledgement
  split
  · rename_i response hresponse
    exact absurd hresponse (h response)
  · rfl

/-- A step that handles a response acknowledges its data when it is one to a motor frame. -/
theorem HostEntry.acknowledgement_of_response {e : HostEntry} {response : Message}
    (h : e.event = .response response) :
    e.acknowledgement =
      if response.type = driveResp ∧ e.before.currentMessage.type = driveCmd then some response.data
      else none := by
  unfold acknowledgement
  rw [h]

/-- Each step but a new target takes the host as far on its ramp as it acknowledges frames. -/
theorem Host.OnRamp.act {start h : Host} {n : ℕ} (hramp : start.OnRamp n h) {s : HostStep}
    (hs : ∀ right left, s ≠ .setMotorSpeed right left) (hecho : HostEntry.Echoes ⟨h, s⟩) :
    start.OnRamp (n + acknowledged [⟨h, s⟩]) (h.act s).1 := by
  have hdoes := h.does_act s
  have hnone (hother : ∀ response, (h.act s).2 ≠ .response response) :
      acknowledged [⟨h, s⟩] = 0 := by
    have hack := HostEntry.acknowledgement_of_ne (e := ⟨h, s⟩) hother
    simp [acknowledged, hack]
  have hack (response : Message) (hresponse : (h.act s).2 = .response response) :=
    HostEntry.acknowledgement_of_response (e := ⟨h, s⟩) hresponse
  generalize (h.act s).1 = h', (h.act s).2 = e at hdoes hnone hack
  cases hdoes with
  | setMotorSpeed right left => exact absurd rfl (hs right left)
  | idle s buffer =>
    rw [hnone (by simp)]
    exact hramp.of_same rfl rfl rfl rfl (.inl rfl)
  | motor t hfree =>
    rw [hnone (by simp)]
    exact hramp.of_same rfl rfl rfl rfl (.inr (.inl rfl))
  | query t junk q hfree =>
    have hother : (q.message junk).type ≠ driveCmd := by
      cases q <;> simp [Query.message, currentCmd, voltageCmd, driveCmd]
    obtain ⟨r, l, v, hnoted⟩ := h.noteQuery_sent t junk q
    rw [hnone (by simp), hnoted]
    exact hramp.of_same rfl rfl rfl rfl (.inr (.inr hother))
  | resend now sent hawaiting =>
    rw [hnone (by simp)]
    exact hramp.of_same rfl rfl rfl rfl (.inl rfl)
  | handle b response hhandles =>
    have hresponse := hack response rfl
    have hended : noMessage ≠ driveCmd := by decide
    have hnothing : ¬ (response.type = driveResp ∧ h.currentMessage.type = driveCmd) →
        acknowledged [⟨h, .byte b⟩] = 0 := by
      intro hno
      simp [acknowledged, hresponse, hno]
    cases hhandles with
    | drive hresp hcmd =>
      rw [if_pos ⟨hresp, hcmd⟩] at hresponse
      have hcount : acknowledged [⟨h, .byte b⟩] = 1 := by simp [acknowledged, hresponse]
      -- The data of the response are those of the frame.
      have hdata : response.data = h.currentMessage.data := by
        simpa [HostEntry.Echoes, hresponse] using hecho
      rw [hcount, hdata]
      exact hramp.acknowledge hcmd []
    | error herror =>
      rw [hnothing fun hno => absurd (herror.symm.trans hno.1) (by decide)]
      exact hramp.of_same rfl rfl rfl rfl (.inl rfl)
    | current hresp hcmd left right =>
      rw [hnothing fun hno => absurd (hresp.symm.trans hno.1) (by decide)]
      exact hramp.of_same rfl rfl rfl rfl (.inr (.inr hended))
    | voltage hresp hcmd =>
      rw [hnothing fun hno => absurd (hresp.symm.trans hno.1) (by decide)]
      exact hramp.of_same rfl rfl rfl rfl (.inr (.inr hended))
    | ignored hunanswered =>
      rw [hnothing fun hno => hunanswered (.inr (.inl ⟨hno.2, hno.1⟩))]
      exact hramp.of_same rfl rfl rfl rfl (.inl rfl)

/-- The frames that are acknowledged in two logs, one behind the other. -/
theorem acknowledged_append (xs ys : List HostEntry) :
    acknowledged (xs ++ ys) = acknowledged xs + acknowledged ys := by
  simp [acknowledged]

/-- A run without a new target takes the host as far on its ramp as it acknowledges frames. -/
theorem Host.OnRamp.run {start h : Host} {n : ℕ} (hramp : start.OnRamp n h) {steps : List HostStep}
    (hsteps : ∀ s ∈ steps, ∀ right left, s ≠ .setMotorSpeed right left)
    (hecho : ∀ e ∈ h.trace steps, e.Echoes) :
    start.OnRamp (n + acknowledged (h.trace steps)) (h.run steps) := by
  induction steps generalizing h n with
  | nil => exact hramp
  | cons s steps ih =>
    have hstep := hramp.act (hsteps s List.mem_cons_self) (hecho ⟨h, s⟩ List.mem_cons_self)
    have hrest := ih hstep (fun s' hs' => hsteps s' (List.mem_cons_of_mem _ hs'))
      fun e he => hecho e (List.mem_cons_of_mem _ he)
    rw [Nat.add_assoc, ← acknowledged_append] at hrest
    exact hrest

/-- Calls of `spinOnce` take the host as far on its ramp as frames are acknowledged. -/
theorem Host.OnRamp.spins {start h : Host} {n : ℕ} (hramp : start.OnRamp n h) (spins : List Spin)
    (hecho : ∀ e ∈ h.history (spins.map .spinOnce), e.Echoes) :
    start.OnRamp (n + acknowledged (h.history (spins.map .spinOnce)))
      (h.calls (spins.map .spinOnce)) := by
  obtain ⟨htrace, hrun⟩ := h.history_eq_trace (spins.map .spinOnce)
  rw [htrace] at hecho ⊢
  rw [← hrun]
  exact hramp.run (h.allSteps_spins spins) hecho

/-- A move towards a target, with its sign. -/
theorem toward_eq_sign {d : ℤ} (hd : 0 ≤ d) (x t : ℤ) :
    toward d x t = x + (t - x).sign * min d |t - x| := by
  rcases lt_trichotomy x t with h | rfl | h
  · rw [toward_of_le h.le, Int.sign_eq_one_of_pos (by omega), abs_of_pos (by omega)]
    omega
  · rw [toward_of_le le_rfl, Int.sub_self, Int.sign_zero]
    omega
  · rw [toward_of_ge hd h.le, Int.sign_eq_neg_one_of_neg (by omega), abs_of_neg (by omega)]
    omega

/-- One speed in a run from `start`, at `final` after `n` acknowledgements, with `middle` on the
way. -/
structure Ramps (start target middle final : ℤ) (n : ℕ) : Prop where
  position : final = start + (target - start).sign * min (maxStep * n) |target - start|
  monotone : middle ∈ Set.uIcc start final
  bounded : final ∈ Set.uIcc start target
  arrival : final = target ↔ ⌈(|target - start| : ℚ) / maxStep⌉₊ ≤ n

/-- Moves of `k` steps and of `n` steps in all. -/
theorem ramps_toward (start target : ℤ) {k n : ℕ} (hk : k ≤ n) :
    Ramps start target (toward (k • maxStep) start target) (toward (n • maxStep) start target)
      n := by
  have hnonneg := nsmul_maxStep_nonneg n
  have hmul : n • maxStep = maxStep * n := by rw [nsmul_eq_mul, mul_comm]
  have hdistance : ⌈(|target - start| : ℚ) / maxStep⌉₊ ≤ n ↔ |target - start| ≤ n • maxStep := by
    have hpos : (0 : ℚ) < maxStep := by
      unfold maxStep
      norm_num
    rw [Nat.ceil_le, div_le_iff₀ hpos, nsmul_eq_mul]
    exact_mod_cast Iff.rfl
  refine ⟨?_, ?_, toward_mem_uIcc hnonneg start target, ?_⟩
  · rw [toward_eq_sign hnonneg, hmul]
  · refine toward_mem_uIcc_of_le (nsmul_maxStep_nonneg k) ?_ start target
    exact nsmul_le_nsmul_left (by decide) hk
  · rw [toward_eq_target_iff hnonneg, hdistance]

/-- Reachable speeds and fixed targets, and a run in which every motor frame that is acknowledged is
by an echo of its data: after `n` acknowledgements each speed has moved towards its target by `n`
steps, or reached it, which takes as many steps as go into the distance, rounded up; it only goes
forward, and does not pass the target. Neither speed depends on the other one. -/
theorem ramp_converges (junk : Host) (before : List HostCall) (first second : List Spin) :
    let start := (Host.new junk).calls before
    let middle := start.calls (first.map .spinOnce)
    let final := middle.calls (second.map .spinOnce)
    let log := start.history ((first ++ second).map .spinOnce)
    start.Aimed → (∀ e ∈ log, e.Echoes) →
      Ramps start.leftSpeed start.leftTargetSpeed middle.leftSpeed final.leftSpeed
          (acknowledged log) ∧
        Ramps start.rightSpeed start.rightTargetSpeed middle.rightSpeed final.rightSpeed
          (acknowledged log) := by
  intro start middle final log haimed hecho
  have hrange : start.InRange :=
    (Host.forall_history (fun h s hrange => hrange.act s) (Host.new_inRange junk) before).2
  have hstart : start.OnRamp 0 start := by
    refine ⟨hrange, haimed, rfl, rfl, ?_, ?_⟩
    · rw [zero_nsmul, toward_zero]
    · rw [zero_nsmul, toward_zero]
  have hlog :
      log = start.history (first.map .spinOnce) ++ middle.history (second.map .spinOnce) := by
    simp only [log, List.map_append, Host.history_append, middle]
  rw [hlog] at hecho
  -- The ramp leads through the middle.
  have hmiddle := hstart.spins first fun e he => hecho e (List.mem_append_left _ he)
  have hfinal := hmiddle.spins second fun e he => hecho e (List.mem_append_right _ he)
  rw [Nat.zero_add] at hmiddle hfinal
  rw [← acknowledged_append, ← hlog] at hfinal
  have hle : acknowledged (start.history (first.map .spinOnce)) ≤ acknowledged log := by
    rw [hlog, acknowledged_append]
    omega
  constructor
  · have hramps := ramps_toward start.leftSpeed start.leftTargetSpeed hle
    rwa [← hmiddle.left, ← hfinal.left] at hramps
  · have hramps := ramps_toward start.rightSpeed start.rightTargetSpeed hle
    rwa [← hmiddle.right, ← hfinal.right] at hramps

/-- Two acknowledged frames take the left motor from 0 to 30, over 20, and one the right motor from
0 to -10. -/
theorem ramp_to_thirty : Ramps 0 30 20 30 2 ∧ Ramps 0 (-10) (-10) (-10) 2 := by
  have h := ramp_converges .zero [.setMotorSpeed 10 (-30)]
    [.at ⟨0, 70000⟩ [], .at ⟨0, 140000⟩ (Message.bytes ⟨driveResp, ⟨20, 0, 0, 10⟩⟩)]
    [.at ⟨0, 210000⟩ (Message.bytes ⟨driveResp, ⟨30, 0, 0, 10⟩⟩)]
    (fun hcmd => absurd hcmd (by decide)) (by decide +kernel)
  exact h

end Guillemot.Motor
