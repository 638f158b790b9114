import Guillemot.Library.Log
import Guillemot.Motion.Thrusters

/-!
# The range of the speeds

The motors take speeds up to 255. `ManageForwardThrusters` and `ManageTurnThrusters` sanitize what
they send, and the compensation for the motors only reduces it. `ManageDepthThrusters` sends the sum
and the difference of two speeds as they are: `speeds_in_range_iff` says that all speeds sent in a
run are in range exactly when the magnitudes of these two are not more than 255 together before any
round of the main loop.
-/

namespace Guillemot.Motion

/-- A speed that the motors take. -/
def IsSpeed (speed : ℤ) : Prop := |speed| ≤ 255

instance (speed : ℤ) : Decidable (IsSpeed speed) := inferInstanceAs (Decidable (_ ≤ _))

/-- All speeds in a message are in range. -/
structure MotorMessage.InRange (msg : MotorMessage) : Prop where
  left : IsSpeed msg.left
  right : IsSpeed msg.right
  frontDepth : IsSpeed msg.frontDepth
  rearDepth : IsSpeed msg.rearDepth
  frontTurn : IsSpeed msg.frontTurn
  rearTurn : IsSpeed msg.rearTurn

/-- Both speeds of a pair are in range. -/
def SpeedsInRange (s : ℤ × ℤ) : Prop := IsSpeed s.1 ∧ IsSpeed s.2

/-- All speeds in all messages to the motors are in range. -/
def AllInRange (outputs : List Output) : Prop := ∀ msg, .motor msg ∈ outputs → msg.InRange

theorem allInRange_append (xs ys : List Output) :
    AllInRange (xs ++ ys) ↔ AllInRange xs ∧ AllInRange ys := by
  simp only [AllInRange, List.mem_append, or_imp, forall_and]

/-- A message is in range when the speeds of its pair are. -/
theorem message_inRange_iff (pair : Pair) (s : ℤ × ℤ) :
    (pair.message s).InRange ↔ SpeedsInRange s := by
  have hzero : IsSpeed 0 := by decide
  cases pair with
  | forward => exact ⟨fun h => ⟨h.left, h.right⟩, fun h => ⟨h.1, h.2, hzero, hzero, hzero, hzero⟩⟩
  | turn =>
    exact ⟨fun h => ⟨h.rearTurn, h.frontTurn⟩, fun h => ⟨hzero, hzero, hzero, hzero, h.2, h.1⟩⟩
  | depth =>
    exact ⟨fun h => ⟨h.rearDepth, h.frontDepth⟩, fun h => ⟨hzero, hzero, h.2, h.1, hzero, hzero⟩⟩

/-- What a function of the main loop sends is in range when the speeds are that it publishes. -/
theorem Controls.Calls.allInRange_iff {c : Controls} {result : Controls × List Output} {pair : Pair}
    {f : ℤ × ℤ → ℤ × ℤ} {x : ℤ × ℤ} (h : c.Calls result pair f x) :
    AllInRange result.2 ↔ ∀ s ∈ (OnChange.call f (c.stored pair) x).2, SpeedsInRange s := by
  have hsent : sent pair result.2 = (OnChange.call f (c.stored pair) x).2 :=
    congrArg Prod.snd h.own
  rw [← hsent]
  constructor
  · intro hrange s hs
    exact (message_inRange_iff pair s).mp (hrange _ ((h.messages _).mpr ⟨s, hs, rfl⟩))
  · intro hrange msg hmsg
    obtain ⟨s, hs, rfl⟩ := (h.messages msg).mp hmsg
    exact (message_inRange_iff pair s).mpr (hrange s hs)

/-! ## The functions of the main loop -/

/-- A speed that is sanitized is in range. -/
theorem isSpeed_sanitize (speed : ℤ) : IsSpeed (sanitize speed) := by
  have hsanitize := sanitize_spec speed
  rw [IsSpeed, abs_le]
  omega

/-- So is a part of it. -/
theorem IsSpeed.truncate_mul {speed : ℤ} (h : IsSpeed speed) {m : ℚ} (hm : |m| ≤ 1) :
    IsSpeed (truncate (speed * m)) := by
  unfold IsSpeed at *
  have hle : |(truncate (speed * m) : ℚ)| ≤ |(speed : ℚ)| := by
    calc |(truncate (speed * m) : ℚ)| ≤ |(speed : ℚ) * m| := abs_truncate_le _
      _ = |(speed : ℚ)| * |m| := abs_mul _ _
      _ ≤ |(speed : ℚ)| := mul_le_of_le_one_right (abs_nonneg _) hm
  exact le_trans (by exact_mod_cast hle) h

/-- What is sent to the forward thrusters is in range. -/
theorem manageForwardThrusters_inRange (c : Controls) : AllInRange c.manageForwardThrusters.2 := by
  have hspeed : IsSpeed c.forwardSpeed := isSpeed_sanitize _
  have hleft : IsSpeed (truncate (leftFwdMult * c.forwardSpeed)) := by
    rw [mul_comm]
    exact hspeed.truncate_mul (by decide +kernel)
  exact c.manageForwardThrusters_calls.allInRange_iff.mpr (OnChange.forall_call _ ⟨hleft, hspeed⟩)

/-- What is sent to the turn thrusters is in range. -/
theorem manageTurnThrusters_inRange (c : Controls) : AllInRange c.manageTurnThrusters.2 := by
  have hrear : IsSpeed c.turnThrusts.1 := isSpeed_sanitize _
  have hfront : IsSpeed c.turnThrusts.2 := isSpeed_sanitize _
  have hspeeds : SpeedsInRange (turnSpeeds c.turnThrusts.1 c.turnThrusts.2) := by
    unfold turnSpeeds
    split_ifs
    · exact ⟨hrear, hfront.truncate_mul (by decide +kernel)⟩
    · exact ⟨hrear.truncate_mul (by decide +kernel), hfront⟩
    · exact ⟨hrear, hfront⟩
  exact c.manageTurnThrusters_calls.allInRange_iff.mpr (OnChange.forall_call _ hspeeds)

/-- The magnitudes of the two speeds of the depth thrusters are not more than 255 together. -/
def Controls.DepthInRange (c : Controls) : Prop := |c.depth.speed| + |c.pitchSpeed| ≤ 255

/-- The sum and the difference are in range when the magnitudes are together. -/
theorem depthThrusts_inRange_iff (c : Controls) :
    SpeedsInRange c.depthThrusts ↔ c.DepthInRange := by
  unfold SpeedsInRange IsSpeed Controls.depthThrusts Controls.DepthInRange
  generalize c.depth.speed = d
  generalize c.pitchSpeed = p
  dsimp only
  rw [abs_le, abs_le]
  rcases abs_cases d with hd | hd <;> rcases abs_cases p with hp | hp <;> omega

/-- What is sent to the depth thrusters is in range when their speeds are. -/
theorem manageDepthThrusters_inRange_iff {c : Controls} (h : SpeedsInRange (c.stored .depth)) :
    AllInRange c.manageDepthThrusters.2 ↔ c.DepthInRange := by
  rw [c.manageDepthThrusters_calls.allInRange_iff, OnChange.forall_call_id_iff h,
    depthThrusts_inRange_iff]

/-- The forward and the turn thrusters do not touch the pitch. -/
theorem manageThrusters_pitch (c : Controls) :
    c.manageForwardThrusters.1.pitch = c.pitch ∧ c.manageTurnThrusters.1.pitch = c.pitch := by
  have hstrafe : c.calcTurn.1.calcStrafe.pitch = c.pitch := by
    unfold Controls.calcStrafe
    split_ifs <;> rfl
  constructor
  · unfold Controls.manageForwardThrusters
    dsimp only
    split_ifs <;> rfl
  · unfold Controls.manageTurnThrusters
    dsimp only
    split_ifs <;> exact hstrafe

/-- A round of the main loop sends speeds in range when those of the depth thrusters are. -/
theorem manage_inRange_iff {c : Controls} (h : SpeedsInRange (c.stored .depth)) :
    AllInRange c.manage.2 ↔ c.DepthInRange := by
  let forward := c.manageForwardThrusters
  let turn := forward.1.manageTurnThrusters
  have hforward : forward.1.stored .depth = c.stored .depth :=
    (c.manageForwardThrusters_calls.others .depth (by decide)).1
  have hturn : turn.1.stored .depth = forward.1.stored .depth :=
    (forward.1.manageTurnThrusters_calls.others .depth (by decide)).1
  have hstored : SpeedsInRange (turn.1.stored .depth) := by rwa [hturn, hforward]
  have hdepth : turn.1.DepthInRange ↔ c.DepthInRange := by
    have hspeed : turn.1.depth = c.depth :=
      (manageTurnThrusters_spec forward.1).2.1.trans (manageForwardThrusters_spec c).2.1
    have hpitch : turn.1.pitch = c.pitch :=
      (manageThrusters_pitch forward.1).2.trans (manageThrusters_pitch c).1
    unfold Controls.DepthInRange Controls.pitchSpeed
    rw [hspeed, hpitch]
  show AllInRange (forward.2 ++ turn.2 ++ turn.1.manageDepthThrusters.2) ↔ _
  rw [allInRange_append, allInRange_append, manageDepthThrusters_inRange_iff hstored, hdepth]
  have hsent : AllInRange forward.2 ∧ AllInRange turn.2 :=
    ⟨manageForwardThrusters_inRange c, manageTurnThrusters_inRange forward.1⟩
  exact and_iff_right hsent

/-! ## Runs -/

/-- An event sends speeds in range unless it is a round of the main loop with too much for the depth
thrusters. -/
theorem step_inRange_iff {c : Controls} (h : SpeedsInRange (c.stored .depth)) (e : ControlEvent) :
    AllInRange (c.step e).2 ↔ (e = .manage → c.DepthInRange) := by
  cases e with
  | manage => exact (manage_inRange_iff h).trans ⟨fun hrange _ => hrange, fun hrange => hrange rfl⟩
  | manageTurnThrusters => exact iff_of_true (manageTurnThrusters_inRange c) nofun
  | _ => exact iff_of_true nofun nofun

/-- What was sent last to the depth thrusters is in range if everything was. -/
theorem stored_inRange {events : List ControlEvent} (h : AllInRange (Controls.init.run events).2) :
    SpeedsInRange ((Controls.init.run events).1.stored .depth) := by
  rw [stored_eq_lastSent]
  have hmem : lastSent .depth (Controls.init.run events).2 ∈
      (0, 0) :: sent .depth (Controls.init.run events).2 := List.getLastD_mem_cons
  rcases List.mem_cons.mp hmem with hrest | hsent
  · rw [hrest]
    exact ⟨by decide, by decide⟩
  · obtain ⟨output, houtput, hspeeds⟩ := List.mem_filterMap.mp hsent
    cases output with
    | motor msg =>
      have hrange := h msg houtput
      obtain ⟨-, hmsg⟩ := Option.ite_none_right_eq_some.mp hspeeds
      rw [← Option.some.inj hmsg]
      exact ⟨hrange.rearDepth, hrange.frontDepth⟩
    | targetDepth input => cases hspeeds
    | targetHeading input => cases hspeeds

/-- In every run, all speeds in all messages to the motors are in range exactly when before each
round of the main loop the magnitudes of `DepthSpeed` and of `PitchSpeed`, which is zero in
`AUTOMATIC` mode, are not more than 255 together. -/
theorem speeds_in_range_iff (events : List ControlEvent) :
    (∀ msg, .motor msg ∈ (Controls.init.run events).2 → msg.InRange) ↔
      ∀ earlier later, events = earlier ++ .manage :: later →
        (Controls.init.run earlier).1.DepthInRange := by
  show AllInRange _ ↔ _
  induction events using List.reverseRecOn with
  | nil => exact iff_of_true nofun (by simp)
  | append_singleton events e ih =>
    rw [Controls.run_append, allInRange_append, ih, Log.forall_split_concat]
    -- As long as everything was in range, so is what is stored.
    exact and_congr_right fun hearlier => step_inRange_iff (stored_inRange (ih.mpr hearlier)) e

/-- The messages that the node is for: percentages for speeds, and for the forward and the strafe
commands. -/
def ControlEvent.InDomain : ControlEvent → Prop
  | .command msg =>
    (msg.motionType = .manual → |msg.value| ≤ 1) ∧
      (msg.motionType = .command → msg.direction = .forward ∨ msg.direction = .strafe →
        |msg.value| ≤ 1)
  | .manage => True
  | _ => False

/-- Full speed for the depth and for the pitch are too much for the front thruster. -/
theorem depth_and_pitch_too_fast :
    ¬ ∀ events : List ControlEvent, (∀ e ∈ events, e.InDomain) →
      ∀ msg, .motor msg ∈ (Controls.init.run events).2 → msg.InRange := by
  intro h
  have hdomain : ∀ e ∈ [ControlEvent.command ⟨.depth, .manual, 1⟩,
      .command ⟨.pitch, .manual, 1⟩, .manage], e.InDomain := by
    simp [ControlEvent.InDomain]
  have hrange := h _ hdomain ⟨depthBits, 0, 0, 510, 0, 0, 0⟩ (by decide +kernel)
  exact absurd hrange.frontDepth (by decide)

end Guillemot.Motion
