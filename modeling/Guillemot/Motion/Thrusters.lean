import Mathlib.Data.List.Induction
import Guillemot.Library.OnChange
import Guillemot.Motion.HighLevelControl

/-!
# What is sent to the thrusters

Each of the three functions of the main loop of `HighLevelControl` sends the speeds of a pair of
thrusters when they differ from those that it has stored: it publishes on change
(`Controls.Calls`). What the node stores are the last speeds sent, as its comment says
(`stored_eq_lastSent`).

`ManageTurnThrusters` compares the speeds before they are compensated for the differences in the
motors with speeds after that. So it neither keeps the turn thrusters up to date nor is quiet for
speeds that the compensation changes (`turn_thrusters_iff`).
-/

namespace Guillemot.Motion

/-! ## Runs of the node -/

/-- What happens in the node. -/
inductive ControlEvent where
  /-- `commandCallback`. -/
  | command (msg : HighLevelControl)
  /-- `CenterOnPointCallback`. -/
  | centerOnPoint (x y : ℤ)
  /-- Any values for `TurnSpeed` and `StrafeSpeed`. -/
  | speeds (turn strafe : ℤ)
  /-- A call of `ManageTurnThrusters`. -/
  | manageTurnThrusters
  /-- A round of the main loop. -/
  | manage
deriving DecidableEq, Repr

/-- One event, and what is published. -/
def Controls.step (c : Controls) : ControlEvent → Controls × List Output
  | .command msg => (c.commandCallback msg, [])
  | .centerOnPoint x y => (c.centerOnPointCallback x y, [])
  | .speeds turn strafe => ({ c with turn.speed := turn, strafe.speed := strafe }, [])
  | .manageTurnThrusters => c.manageTurnThrusters
  | .manage => c.manage

/-- Events one after the other, and all that is published. -/
def Controls.run (c : Controls) (events : List ControlEvent) : Controls × List Output :=
  events.foldl (fun s e => ((s.1.step e).1, s.2 ++ (s.1.step e).2)) (c, [])

theorem Controls.run_append (c : Controls) (events : List ControlEvent) (e : ControlEvent) :
    c.run (events ++ [e]) =
      (((c.run events).1.step e).1, (c.run events).2 ++ ((c.run events).1.step e).2) := by
  simp [run]

/-! ## The speeds that are sent -/

/-- The pairs of thrusters. -/
inductive Pair where
  | forward
  | turn
  | depth
deriving DecidableEq, Repr

/-- The mask of a message for a pair. -/
def Pair.bits : Pair → ℕ
  | forward => driveBits
  | turn => turnBits
  | depth => depthBits

/-- The speeds in a message for a pair: left and right, or rear and front. -/
def MotorMessage.speeds (msg : MotorMessage) : Pair → ℤ × ℤ
  | .forward => (msg.left, msg.right)
  | .turn => (msg.rearTurn, msg.frontTurn)
  | .depth => (msg.rearDepth, msg.frontDepth)

/-- The message with speeds for a pair. -/
def Pair.message : Pair → ℤ × ℤ → MotorMessage
  | forward, s => ⟨driveBits, s.1, s.2, 0, 0, 0, 0⟩
  | turn, s => ⟨turnBits, 0, 0, 0, 0, s.2, s.1⟩
  | depth, s => ⟨depthBits, 0, 0, s.2, s.1, 0, 0⟩

/-- The speeds that are stored for a pair. -/
def Controls.stored (c : Controls) : Pair → ℤ × ℤ
  | .forward => (c.currentFwdLeft, c.currentFwdRight)
  | .turn => (c.currentTurnRear, c.currentTurnFront)
  | .depth => (c.currentDepthRear, c.currentDepthFront)

/-- The speeds for a pair in what is published. -/
def Output.sent? (pair : Pair) : Output → Option (ℤ × ℤ)
  | .motor msg => if msg.mask = pair.bits then some (msg.speeds pair) else none
  | _ => none

/-- All speeds that are sent to a pair. -/
def sent (pair : Pair) (outputs : List Output) : List (ℤ × ℤ) :=
  outputs.filterMap (Output.sent? pair)

/-- The speeds that were sent to a pair last. The thrusters do not run at the start. -/
def lastSent (pair : Pair) (outputs : List Output) : ℤ × ℤ := (sent pair outputs).getLastD (0, 0)

@[simp]
theorem sent_append (pair : Pair) (xs ys : List Output) :
    sent pair (xs ++ ys) = sent pair xs ++ sent pair ys :=
  List.filterMap_append

/-- A function of the main loop publishes the speeds `x` for a pair on change, in the form `f x`. It
leaves the other pairs, and the messages that it sends are for its pair. -/
structure Controls.Calls (c : Controls) (result : Controls × List Output) (pair : Pair)
    (f : ℤ × ℤ → ℤ × ℤ) (x : ℤ × ℤ) : Prop where
  own : (result.1.stored pair, sent pair result.2) = OnChange.call f (c.stored pair) x
  others : ∀ other, other ≠ pair → result.1.stored other = c.stored other ∧ sent other result.2 = []
  messages : ∀ msg, .motor msg ∈ result.2 ↔ ∃ s ∈ sent pair result.2, msg = pair.message s

/-- A message for a pair is none for another. -/
theorem sent_message (pair other : Pair) (s : ℤ × ℤ) :
    sent other [.motor (pair.message s)] = if other = pair then [s] else [] := by
  cases pair <;> cases other <;> rfl

/-- Without messages for the motors nothing is sent. -/
theorem sent_eq_nil {outputs : List Output} (h : ∀ msg, .motor msg ∉ outputs) (pair : Pair) :
    sent pair outputs = [] := by
  refine List.filterMap_eq_nil_iff.mpr fun output houtput => ?_
  cases output with
  | motor msg => exact absurd houtput (h msg)
  | _ => rfl

/-- A message for a pair is sent because its speeds have changed. -/
theorem Controls.Calls.of_changed {c c' : Controls} {outputs : List Output} {pair : Pair}
    {f : ℤ × ℤ → ℤ × ℤ} {x : ℤ × ℤ} {msg : MotorMessage} (hne : x ≠ c.stored pair)
    (hquiet : ∀ msg, .motor msg ∉ outputs) (hmsg : msg = pair.message (f x))
    (hstored : c'.stored pair = f x)
    (hothers : ∀ other, other ≠ pair → c'.stored other = c.stored other) :
    c.Calls (c', outputs ++ [.motor msg]) pair f x where
  own := by
    rw [OnChange.call, if_neg hne, hmsg, sent_append, sent_eq_nil hquiet, sent_message, if_pos rfl,
      hstored]
    rfl
  others other hother := by
    refine ⟨hothers other hother, ?_⟩
    rw [hmsg, sent_append, sent_eq_nil hquiet, sent_message, if_neg hother]
    rfl
  messages msg := by
    rw [hmsg, sent_append, sent_eq_nil hquiet, sent_message, if_pos rfl]
    simp [hquiet]

/-- No message is sent because they have not. -/
theorem Controls.Calls.of_unchanged {c c' : Controls} {outputs : List Output} {pair : Pair}
    {f : ℤ × ℤ → ℤ × ℤ} {x : ℤ × ℤ} (heq : x = c.stored pair)
    (hquiet : ∀ msg, .motor msg ∉ outputs) (hstored : ∀ p, c'.stored p = c.stored p) :
    c.Calls (c', outputs) pair f x where
  own := by rw [OnChange.call, if_pos heq, sent_eq_nil hquiet, hstored]
  others other _ := ⟨hstored other, sent_eq_nil hquiet other⟩
  messages msg := by
    rw [sent_eq_nil hquiet]
    simp [hquiet]

/-- The three functions test the speeds for a change, and then send a message for their pair. -/
theorem Controls.Calls.of_test {c d d' : Controls} {outputs : List Output} {pair : Pair}
    {f : ℤ × ℤ → ℤ × ℤ} {x : ℤ × ℤ} {msg : MotorMessage} {changed : Prop} [Decidable changed]
    (hchanged : changed ↔ x ≠ d.stored pair) (hd : ∀ p, d.stored p = c.stored p)
    (hquiet : ∀ msg, .motor msg ∉ outputs) (hmsg : msg = pair.message (f x))
    (hstored : d'.stored pair = f x)
    (hothers : ∀ other, other ≠ pair → d'.stored other = d.stored other) :
    c.Calls (if changed then (d', outputs ++ [.motor msg]) else (d, outputs)) pair f x := by
  rw [hd] at hchanged
  split_ifs with h
  · have hkept : ∀ other, other ≠ pair → d'.stored other = c.stored other :=
      fun other hother => (hothers other hother).trans (hd other)
    exact .of_changed (hchanged.mp h) hquiet hmsg hstored hkept
  · exact .of_unchanged (not_not.mp (h ∘ hchanged.mpr)) hquiet hd

theorem changed_iff {x y a b : ℤ} : x ≠ a ∨ y ≠ b ↔ (x, y) ≠ (a, b) := by
  rw [Ne, Ne, Ne, Prod.mk.injEq, not_and_or]

/-- Nothing that `CalcTurn` and `CalcDepth` publish goes to a thruster. -/
theorem motor_notMem_calcTurn (c : Controls) (msg : MotorMessage) : .motor msg ∉ c.calcTurn.2 := by
  unfold Controls.calcTurn
  cases c.turn.pending <;> simp

@[inherit_doc motor_notMem_calcTurn]
theorem motor_notMem_calcDepth (c : Controls) (msg : MotorMessage) :
    .motor msg ∉ c.calcDepth.2 := by
  unfold Controls.calcDepth
  cases c.depth.pending <;> simp

/-- `CalcStrafe` and `CalcPitch` store nothing that was sent. -/
theorem stored_calcStrafe (c : Controls) (pair : Pair) :
    c.calcStrafe.stored pair = c.stored pair := by
  unfold Controls.calcStrafe
  split_ifs <;> cases pair <;> rfl

@[inherit_doc stored_calcStrafe]
theorem stored_calcPitch (c : Controls) (pair : Pair) :
    c.calcPitch.stored pair = c.stored pair := by
  unfold Controls.calcPitch
  split_ifs <;> cases pair <;> rfl

/-- A command that is handed on leaves the speed. -/
theorem Axis.handOn_speed (a : Axis) : a.handOn.speed = a.speed := by
  unfold Axis.handOn
  split_ifs <;> rfl

/-- The speed of the forward thrusters. -/
def Controls.forwardSpeed (c : Controls) : ℤ :=
  sanitize (if c.forward.mode = .automatic then makeSpeed c.forward.command else c.forward.speed)

theorem Controls.manageForwardThrusters_calls (c : Controls) :
    c.Calls c.manageForwardThrusters .forward (fun s => (truncate (leftFwdMult * s.1), s.2))
      (c.forwardSpeed, c.forwardSpeed) := by
  have hquiet (msg : MotorMessage) : Output.motor msg ∉ [] := List.not_mem_nil
  unfold Controls.manageForwardThrusters Controls.forwardSpeed
  generalize sanitize (if c.forward.mode = .automatic then _ else _) = speed
  have hchanged : c.currentFwdLeft ≠ speed ∨ c.currentFwdRight ≠ speed ↔
      (speed, speed) ≠ c.stored .forward := (or_congr ne_comm ne_comm).trans changed_iff
  refine .of_test hchanged (fun p => by cases p <;> rfl) hquiet rfl rfl fun other hother => ?_
  cases other <;> first | rfl | exact absurd rfl hother

/-- `StrafeSpeed` after `CalcStrafe`. -/
def Controls.strafeSpeed (c : Controls) : ℤ :=
  if c.strafe.mode = .automatic then makeSpeed c.strafe.command else c.strafe.speed

/-- `RearThrust` and `FrontThrust` of the turn thrusters. -/
def Controls.turnThrusts (c : Controls) : ℤ × ℤ :=
  (sanitize (c.turn.speed - c.strafeSpeed), sanitize (c.turn.speed + c.strafeSpeed))

theorem Controls.calcStrafe_speeds (c : Controls) :
    c.calcTurn.1.calcStrafe.turn.speed = c.turn.speed ∧
      c.calcTurn.1.calcStrafe.strafe.speed = c.strafeSpeed := by
  have hturn : c.calcTurn.1.turn.speed = c.turn.speed := c.turn.handOn_speed
  have hstrafe : c.calcTurn.1.strafe = c.strafe := rfl
  unfold Controls.calcStrafe Controls.strafeSpeed
  rw [hstrafe]
  split_ifs <;> exact ⟨hturn, rfl⟩

theorem Controls.manageTurnThrusters_calls (c : Controls) :
    c.Calls c.manageTurnThrusters .turn (fun s => turnSpeeds s.1 s.2) c.turnThrusts := by
  have hstored (p : Pair) : c.calcTurn.1.calcStrafe.stored p = c.stored p :=
    (stored_calcStrafe _ p).trans (by cases p <;> rfl)
  obtain ⟨hturn, hstrafe⟩ := c.calcStrafe_speeds
  unfold Controls.manageTurnThrusters Controls.turnThrusts
  dsimp only
  rw [hturn, hstrafe]
  refine .of_test changed_iff hstored (motor_notMem_calcTurn c) rfl rfl fun other hother => ?_
  cases other <;> first | rfl | exact absurd rfl hother

/-- `PitchSpeed` after `CalcPitch`. -/
def Controls.pitchSpeed (c : Controls) : ℤ := if c.pitch.mode = .automatic then 0 else c.pitch.speed

/-- `RearThrust` and `FrontThrust` of the depth thrusters. -/
def Controls.depthThrusts (c : Controls) : ℤ × ℤ :=
  (c.depth.speed - c.pitchSpeed, c.depth.speed + c.pitchSpeed)

theorem Controls.calcPitch_speeds (c : Controls) :
    c.calcDepth.1.calcPitch.depth.speed = c.depth.speed ∧
      c.calcDepth.1.calcPitch.pitch.speed = c.pitchSpeed := by
  have hdepth : c.calcDepth.1.depth.speed = c.depth.speed := c.depth.handOn_speed
  have hpitch : c.calcDepth.1.pitch = c.pitch := rfl
  unfold Controls.calcPitch Controls.pitchSpeed
  rw [hpitch]
  split_ifs <;> exact ⟨hdepth, rfl⟩

theorem Controls.manageDepthThrusters_calls (c : Controls) :
    c.Calls c.manageDepthThrusters .depth id c.depthThrusts := by
  have hstored (p : Pair) : c.calcDepth.1.calcPitch.stored p = c.stored p :=
    (stored_calcPitch _ p).trans (by cases p <;> rfl)
  obtain ⟨hdepth, hpitch⟩ := c.calcPitch_speeds
  unfold Controls.manageDepthThrusters Controls.depthThrusts
  dsimp only
  rw [hdepth, hpitch]
  refine .of_test changed_iff hstored (motor_notMem_calcDepth c) rfl rfl fun other hother => ?_
  cases other <;> first | rfl | exact absurd rfl hother

/-! ## What is stored -/

/-- What is stored after a function of the main loop was sent last, if it was so before. -/
theorem Controls.Calls.stored_eq {c : Controls} {result : Controls × List Output} {pair : Pair}
    {f : ℤ × ℤ → ℤ × ℤ} {x : ℤ × ℤ} (h : c.Calls result pair f x) (p : Pair) :
    result.1.stored p = (sent p result.2).getLastD (c.stored p) := by
  by_cases hp : p = pair
  · subst hp
    have hstored := OnChange.call_stored f (c.stored p) x
    rw [← h.own] at hstored
    exact hstored
  · obtain ⟨hstored, hsent⟩ := h.others p hp
    rw [hsent, hstored]
    rfl

/-- A message stores nothing that was sent. -/
theorem stored_commandCallback (c : Controls) (msg : HighLevelControl) (p : Pair) :
    (c.commandCallback msg).stored p = c.stored p := by
  unfold Controls.commandCallback
  cases msg.direction with
  | pivot => split_ifs <;> cases p <;> rfl
  | _ => cases p <;> rfl

/-- What is stored after an event was sent last, if it was so before. -/
theorem Controls.step_stored (c : Controls) (e : ControlEvent) (p : Pair) :
    (c.step e).1.stored p = (sent p (c.step e).2).getLastD (c.stored p) := by
  cases e with
  | command msg => exact stored_commandCallback c msg p
  | centerOnPoint x y => cases p <;> rfl
  | speeds turn strafe => cases p <;> rfl
  | manageTurnThrusters => exact c.manageTurnThrusters_calls.stored_eq p
  | manage =>
    let forward := c.manageForwardThrusters
    let turn := forward.1.manageTurnThrusters
    let depth := turn.1.manageDepthThrusters
    have hforward := c.manageForwardThrusters_calls.stored_eq p
    have hturn := forward.1.manageTurnThrusters_calls.stored_eq p
    have hdepth := turn.1.manageDepthThrusters_calls.stored_eq p
    show depth.1.stored p = (sent p (forward.2 ++ turn.2 ++ depth.2)).getLastD (c.stored p)
    rw [sent_append, sent_append, OnChange.getLastD_append, OnChange.getLastD_append, ← hforward,
      ← hturn, ← hdepth]

/-- In every run, what is stored are the last speeds sent. -/
theorem stored_eq_lastSent (events : List ControlEvent) (p : Pair) :
    (Controls.init.run events).1.stored p = lastSent p (Controls.init.run events).2 := by
  induction events using List.reverseRecOn with
  | nil => cases p <;> rfl
  | append_singleton events e ih =>
    rw [Controls.run_append, lastSent, sent_append, OnChange.getLastD_append]
    rw [lastSent] at ih
    rw [← ih]
    exact Controls.step_stored _ e p

/-! ## The turn thrusters -/

/-- The speeds of the turn thrusters are changed by the compensation for the motors: the rear one
runs backwards and the front one runs, or the rear one runs forwards and the front one backwards. -/
def Compensated (turn strafe : ℤ) : Prop :=
  (turn - strafe ≤ -60 ∧ 60 ≤ |turn + strafe|) ∨ (60 ≤ turn - strafe ∧ turn + strafe ≤ -60)

instance (turn strafe : ℤ) : Decidable (Compensated turn strafe) :=
  inferInstanceAs (Decidable (_ ∨ _))

/-- A speed that is sanitized is zero, or in the range of the motors on the same side. -/
theorem sanitize_spec (speed : ℤ) :
    (-60 < speed ∧ speed < 60 ∧ sanitize speed = 0) ∨
      (60 ≤ speed ∧ 60 ≤ sanitize speed ∧ sanitize speed ≤ 255) ∨
      (speed ≤ -60 ∧ -255 ≤ sanitize speed ∧ sanitize speed ≤ -60) := by
  unfold sanitize
  dsimp only
  split_ifs <;> omega

/-- The compensation leaves both speeds when it is for neither. -/
theorem turnSpeeds_eq_iff (rear front : ℤ) :
    turnSpeeds rear front = (rear, front) ↔
      (rear < 0 → front = 0) ∧ (0 ≤ rear → front < 0 → rear = 0) := by
  unfold turnSpeeds
  split_ifs with hrear hfront
  · have hmult : truncate (front * frontTurnMult) = front ↔ front = 0 :=
      truncate_mul_eq_iff (by decide +kernel) (by decide +kernel)
    simp only [Prod.mk.injEq, true_and, hmult]
    omega
  · have hmult : truncate (rear * rearTurnMult) = rear ↔ rear = 0 :=
      truncate_mul_eq_iff (by decide +kernel) (by decide +kernel)
    simp only [Prod.mk.injEq, and_true, hmult]
    omega
  · exact iff_of_true rfl ⟨fun h => absurd h hrear, fun _ h => absurd h hfront⟩

/-- The speeds that are sanitized are left unless they are compensated. -/
theorem turnSpeeds_sanitize_iff (turn strafe : ℤ) :
    turnSpeeds (sanitize (turn - strafe)) (sanitize (turn + strafe)) =
        (sanitize (turn - strafe), sanitize (turn + strafe)) ↔ ¬ Compensated turn strafe := by
  have hrear := sanitize_spec (turn - strafe)
  have hfront := sanitize_spec (turn + strafe)
  rw [turnSpeeds_eq_iff, Compensated, le_abs']
  omega

/-- A call leaves the speeds, so that the next call computes the same. -/
theorem manageTurnThrusters_speeds (c : Controls) :
    c.manageTurnThrusters.1.turn.speed = c.turn.speed ∧
      c.manageTurnThrusters.1.strafe.speed = c.strafeSpeed ∧
      c.manageTurnThrusters.1.strafeSpeed = c.strafeSpeed := by
  have hturn : c.manageTurnThrusters.1.turn.speed = c.turn.speed := by
    rw [(manageTurnThrusters_spec c).1, Axis.handOn_speed]
  have hstrafe : c.manageTurnThrusters.1.strafe = c.calcTurn.1.calcStrafe.strafe := by
    unfold Controls.manageTurnThrusters
    dsimp only
    split_ifs <;> rfl
  refine ⟨hturn, ?_, ?_⟩
  · rw [hstrafe, c.calcStrafe_speeds.2]
  · have hcommand : c.calcTurn.1.strafe = c.strafe := rfl
    unfold Controls.strafeSpeed
    rw [hstrafe, Controls.calcStrafe, hcommand]
    split_ifs <;> first | rfl | contradiction

/-- When no heading waits, a call publishes nothing unless it sends speeds. -/
theorem manageTurnThrusters_quiet_iff {c : Controls} (h : c.turn.pending = none) :
    c.manageTurnThrusters.2 = [] ↔ sent .turn c.manageTurnThrusters.2 = [] := by
  have hheading : c.calcTurn.2 = [] := by
    unfold Controls.calcTurn
    rw [h]
    rfl
  unfold Controls.manageTurnThrusters
  dsimp only
  rw [hheading]
  split_ifs
  · exact iff_of_false (List.cons_ne_nil _ _) (List.cons_ne_nil _ _)
  · exact iff_of_true rfl rfl

/-- After every call of `ManageTurnThrusters` in every run, the speeds that were sent last are those
for the turn and the strafe, compensated, and another call publishes nothing, exactly when the
compensation does not change these speeds. -/
theorem turn_thrusters_iff (events : List ControlEvent) :
    let before := Controls.init.run events
    let called := before.1.manageTurnThrusters
    let turn := called.1.turn.speed
    let strafe := called.1.strafe.speed
    (lastSent .turn (before.2 ++ called.2) =
        turnSpeeds (sanitize (turn - strafe)) (sanitize (turn + strafe)) ∧
      called.1.manageTurnThrusters.2 = []) ↔
        ¬ Compensated before.1.turn.speed before.1.strafeSpeed := by
  intro before called turn strafe
  obtain ⟨hturn, hstrafe, hspeed⟩ := manageTurnThrusters_speeds before.1
  have hthrusts : called.1.turnThrusts = before.1.turnThrusts := by
    unfold Controls.turnThrusts
    rw [hturn, hspeed]
  have hlast : lastSent .turn (before.2 ++ called.2) = called.1.stored .turn := by
    have hstored := stored_eq_lastSent (events ++ [.manageTurnThrusters]) .turn
    rw [Controls.run_append] at hstored
    exact hstored.symm
  have hquiet : called.1.turn.pending = none := by
    rw [(manageTurnThrusters_spec before.1).1]
    exact Axis.handOn_pending _
  -- Both calls are calls of one publisher, with the same speeds.
  have hfirst := congrArg Prod.fst before.1.manageTurnThrusters_calls.own
  have hsecond := congrArg Prod.snd called.1.manageTurnThrusters_calls.own
  rw [hthrusts] at hsecond
  have hcalls := OnChange.upToDate_and_quiet_iff (fun s => turnSpeeds s.1 s.2)
    (before.1.stored .turn) before.1.turnThrusts
  rw [← hfirst, ← hsecond] at hcalls
  rw [manageTurnThrusters_quiet_iff hquiet, hlast, ← turnSpeeds_sanitize_iff]
  unfold turn strafe
  rw [hturn, hstrafe]
  exact hcalls

/-- The turn thrusters are sent the same speeds in every round of a turn to the left. -/
theorem turn_left_repeated :
    ¬ ∀ events : List ControlEvent,
      let before := Controls.init.run events
      let called := before.1.manageTurnThrusters
      let turn := called.1.turn.speed
      let strafe := called.1.strafe.speed
      lastSent .turn (before.2 ++ called.2) =
          turnSpeeds (sanitize (turn - strafe)) (sanitize (turn + strafe)) ∧
        called.1.manageTurnThrusters.2 = [] := by
  intro h
  have hquiet := (h [.command ⟨.turn, .manual, -1⟩]).2
  revert hquiet
  decide +kernel

/-- Speeds that are those sent before, compensated, are not sent. -/
example :
    let before := Controls.init.run [.speeds 83 171, .manageTurnThrusters, .speeds 61 149]
    before.1.manageTurnThrusters.2 = [] ∧ lastSent .turn before.2 = (-88, 210) ∧
      turnSpeeds (-88) 210 = (-88, 174) := by
  decide +kernel

end Guillemot.Motion
