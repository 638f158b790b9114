import Mathlib.Data.List.Induction
import Guillemot.Motion.Controllers

/-!
# Runs of the depth controller

The depth controller by itself, with any targets, readings, times and messages that switch it on and
off, and with any gains. A reading either takes one of the branches that set the speed to 1 or -1
(`fullSpeed`), or is regulated, where the integral `yOld` gets the error over the time since
`tOld`.

`depth_bounded` is the invariant of the integral. The other two results say when the controller does
what it is for: full speed leads towards the target except in the branch for the surface, whose test
has the wrong sign (`saturated_towards_iff`), and time in which the controller was off is integrated
unless integral and error happen to be zero (`elapsed_within_period_iff`).
-/

namespace Guillemot.Motion

/-- What the depth controller handles; a reading comes with the times that are read for it. -/
inductive DepthEvent where
  | target (data : ℚ)
  | enable (module : Module) (state : Bool)
  | reading (depth reset now : ℚ)
deriving DecidableEq, Repr

namespace DepthController

/-- One message: the controller, and what it publishes. -/
def step (d : DepthController) : DepthEvent → DepthController × List HighLevelControl
  | .target data => (d.targetDepthCallback data, [])
  | .enable module state => (d.enabledCallback module state, [])
  | .reading depth reset now => d.currentDepthCallback depth reset now

/-- The controller after some messages. -/
def run (d : DepthController) (events : List DepthEvent) : DepthController :=
  events.foldl (fun d e => (d.step e).1) d

/-- The controller when it is started with two gains. -/
def started (KI KP : ℚ) : DepthController := { init with KI := KI, KP := KP }

theorem run_concat (d : DepthController) (events : List DepthEvent) (e : DepthEvent) :
    d.run (events ++ [e]) = ((d.run events).step e).1 := by
  rw [run, List.foldl_append]
  rfl

/-- What every message keeps holds after all of them. -/
theorem run_invariant {I : DepthController → Prop} (hstep : ∀ d e, I d → I (d.step e).1)
    {d : DepthController} (hd : I d) (events : List DepthEvent) : I (d.run events) := by
  induction events using List.reverseRecOn with
  | nil => exact hd
  | append_singleton events e ih =>
    rw [run_concat]
    exact hstep _ e ih

/-! ## The branches of a reading -/

/-- The branch for the surface is taken. -/
def AtSurface (d : DepthController) (depth : ℚ) : Prop :=
  depth - d.targetDepth > 1 / 2 ∧ depth < 1

instance (d : DepthController) (depth : ℚ) : Decidable (d.AtSurface depth) :=
  inferInstanceAs (Decidable (_ ∧ _))

/-- The speed that is set directly, if one is. -/
def fullSpeed (d : DepthController) (depth : ℚ) : Option ℚ :=
  if d.AtSurface depth then some (-1)
  else if depth - d.targetDepth > 3 / 2 ∧ depth > 1 then some 1
  else if depth - d.targetDepth < -(3 / 2) ∧ depth > 1 then some (-1)
  else none

/-- A reading that sets the speed directly clears the integral, and one that does not is
regulated. -/
theorem currentDepthCallback_of_on {d : DepthController} (hon : d.on = true)
    (depth reset now : ℚ) :
    d.currentDepthCallback depth reset now =
      match d.fullSpeed depth with
      | some speed => ({ d with yOld := 0, eOld := 0 }, [setDepthSpeed (-speed)])
      | none =>
        ((d.regulate (depth - d.targetDepth) reset now).1,
          [setDepthSpeed (-clamp 1 (d.regulate (depth - d.targetDepth) reset now).2)]) := by
  have hone : clamp 1 1 = 1 := by decide +kernel
  have hneg : clamp 1 (-1) = -1 := by decide +kernel
  unfold currentDepthCallback fullSpeed
  rw [if_pos hon]
  dsimp only
  by_cases hsurface : depth - d.targetDepth > 1 / 2 ∧ depth < 1
  · rw [if_pos hsurface, if_pos (show d.AtSurface depth from hsurface), hneg]
  rw [if_neg hsurface, if_neg (show ¬ d.AtSurface depth from hsurface)]
  by_cases hdeep : depth - d.targetDepth > 3 / 2 ∧ depth > 1
  · rw [if_pos hdeep, if_pos hdeep, hone]
  rw [if_neg hdeep, if_neg hdeep]
  by_cases hshallow : depth - d.targetDepth < -(3 / 2) ∧ depth > 1
  · rw [if_pos hshallow, if_pos hshallow, hneg]
  · rw [if_neg hshallow, if_neg hshallow]

/-- A controller that is off does nothing with a reading. -/
theorem currentDepthCallback_of_off {d : DepthController} (hoff : d.on = false)
    (depth reset now : ℚ) : d.currentDepthCallback depth reset now = (d, []) := by
  rw [currentDepthCallback, hoff]
  rfl

/-! ## The regulation -/

/-- The error without the small ones. -/
def largeError (error : ℚ) : ℚ := if |error| < 2 / 100 then 0 else error

/-- The integral that an update starts from: it is cleared when the target is the surface. -/
def integral (d : DepthController) (error : ℚ) : ℚ :=
  if d.targetDepth < 5 / 100 ∧ largeError error < 1 / 10 then 0 else d.yOld

/-- The integral after an update over the time `t`. -/
def integrate (d : DepthController) (error t : ℚ) : ℚ :=
  let y :=
    if largeError error > 0 then
      d.integral error + 1 / 2 * d.KI * t / 2 * (largeError error + d.eOld)
    else d.integral error + d.KI * t / 2 * (largeError error + d.eOld)
  let y := if |y| > iMax then (if y > 0 then iMax else -iMax) else y
  if largeError error = 0 then d.integral error else y

/-- The timer is started anew. -/
def Restarts (d : DepthController) (error : ℚ) : Prop := d.integral error = 0 ∧ d.eOld = 0

instance (d : DepthController) (error : ℚ) : Decidable (d.Restarts error) :=
  inferInstanceAs (Decidable (_ ∧ _))

/-- The time over which an update integrates. -/
def elapsed (d : DepthController) (error reset now : ℚ) : ℚ :=
  now - (if d.Restarts error then reset else d.tOld)

/-- What the regulation does to the controller. -/
theorem regulate_fst (d : DepthController) (error reset now : ℚ) :
    (d.regulate error reset now).1 =
      { d with
        yOld := d.integrate error (d.elapsed error reset now)
        eOld := largeError error
        tOld := now } := rfl

/-- The integral stays bounded: it is cut off, or left as it was, or cleared. -/
theorem abs_integrate_le {d : DepthController} (h : |d.yOld| ≤ iMax) (error t : ℚ) :
    |d.integrate error t| ≤ iMax := by
  have hiMax : |iMax| ≤ iMax := by decide +kernel
  have hcut : ∀ y : ℚ, |if |y| > iMax then (if y > 0 then iMax else -iMax) else y| ≤ iMax := by
    intro y
    split_ifs with hout
    · exact hiMax
    · rwa [abs_neg]
    · exact not_lt.mp hout
  have hintegral : |d.integral error| ≤ iMax := by
    unfold integral
    split_ifs
    · decide +kernel
    · exact h
  unfold integrate
  dsimp only
  by_cases hzero : largeError error = 0
  · rwa [if_pos hzero]
  · rw [if_neg hzero]
    exact hcut _

/-! ## Bounds -/

/-- A number that is cut off lies within the bound. -/
theorem abs_clamp_le {bound : ℚ} (hbound : 0 ≤ bound) (x : ℚ) : |clamp bound x| ≤ bound := by
  unfold clamp
  split_ifs with hhigh hlow
  · rw [abs_of_nonneg hbound]
  · rw [abs_neg, abs_of_nonneg hbound]
  · exact abs_le.mpr ⟨by linarith, by linarith⟩

/-- A message keeps the integral bounded. -/
theorem abs_yOld_step_le {d : DepthController} (h : |d.yOld| ≤ iMax) (e : DepthEvent) :
    |(d.step e).1.yOld| ≤ iMax := by
  cases e with
  | target data => exact h
  | enable module state =>
    simp only [step, enabledCallback]
    split_ifs <;> exact h
  | reading depth reset now =>
    simp only [step]
    cases hon : d.on with
    | false => rwa [currentDepthCallback_of_off hon]
    | true =>
      rw [currentDepthCallback_of_on hon]
      cases d.fullSpeed depth with
      | some speed =>
        show |(0 : ℚ)| ≤ iMax
        decide +kernel
      | none =>
        simp only [regulate_fst]
        exact abs_integrate_le h _ _

/-- Whatever a message makes the controller publish is a percentage. -/
theorem abs_value_le {d : DepthController} {e : DepthEvent} {msg : HighLevelControl}
    (hmsg : msg ∈ (d.step e).2) : |msg.value| ≤ 1 := by
  cases e with
  | target data => cases hmsg
  | enable module state => cases hmsg
  | reading depth reset now =>
    have hsent : ∃ speed, msg = setDepthSpeed (-clamp 1 speed) := by
      cases hon : d.on with
      | false =>
        rw [step, currentDepthCallback_of_off hon] at hmsg
        cases hmsg
      | true =>
        rw [step, currentDepthCallback, if_pos hon] at hmsg
        exact ⟨_, List.mem_singleton.mp hmsg⟩
    obtain ⟨speed, rfl⟩ := hsent
    rw [setDepthSpeed, abs_neg]
    exact abs_clamp_le zero_le_one speed

/-- In every run with any gains, the integral is at most `iMax` in magnitude after every message,
and every value that is published lies between -1 and 1. -/
theorem depth_bounded (KI KP : ℚ) (events : List DepthEvent) (e : DepthEvent) :
    |(((started KI KP).run events).step e).1.yOld| ≤ iMax ∧
      ∀ msg ∈ (((started KI KP).run events).step e).2, -1 ≤ msg.value ∧ msg.value ≤ 1 := by
  have hstart : |(started KI KP).yOld| ≤ iMax := by
    show |(0 : ℚ)| ≤ iMax
    decide +kernel
  have hrun : |((started KI KP).run events).yOld| ≤ iMax :=
    run_invariant (I := fun d => |d.yOld| ≤ iMax) (fun _ e h => abs_yOld_step_le h e) hstart events
  exact ⟨abs_yOld_step_le hrun e, fun msg hmsg => abs_le.mp (abs_value_le hmsg)⟩

/-! ## Full speed -/

/-- The value published by a reading that sets the speed directly is 1 above the target, or -1 below
it. -/
def LeadsToTarget (d : DepthController) (depth reset now : ℚ) : Prop :=
  d.on = true → (d.fullSpeed depth).isSome →
    ∀ msg ∈ (d.currentDepthCallback depth reset now).2,
      (msg.value = 1 ∧ depth < d.targetDepth) ∨ (msg.value = -1 ∧ d.targetDepth < depth)

/-- Full speed leads to the target in every branch but that for the surface. -/
theorem leadsToTarget_iff (d : DepthController) (depth reset now : ℚ) :
    d.LeadsToTarget depth reset now ↔ (d.on = true → ¬ d.AtSurface depth) := by
  unfold LeadsToTarget
  refine forall_congr' fun hon => ?_
  rw [currentDepthCallback_of_on hon]
  unfold fullSpeed
  split_ifs with hsurface hdeep hshallow
  · -- Too deep by more than half a metre, and on the way further down.
    refine iff_of_false (fun hleads => ?_) (not_not_intro hsurface)
    rcases hleads rfl _ List.mem_cons_self with ⟨-, hlt⟩ | ⟨hvalue, -⟩
    · linarith [hsurface.1]
    · norm_num [setDepthSpeed] at hvalue
  · refine iff_of_true (fun _ msg hmsg => ?_) hsurface
    obtain rfl := List.mem_singleton.mp hmsg
    exact .inr ⟨rfl, by linarith [hdeep.1]⟩
  · refine iff_of_true (fun _ msg hmsg => ?_) hsurface
    obtain rfl := List.mem_singleton.mp hmsg
    exact .inl ⟨by norm_num [setDepthSpeed], by linarith [hshallow.1]⟩
  · exact iff_of_true (fun hsome => by cases hsome) hsurface

/-- In every run with any gains, every reading that sets the speed directly publishes full speed
towards the target exactly when none is taken for one at the surface. -/
theorem saturated_towards_iff (KI KP : ℚ) (events : List DepthEvent) :
    (∀ earlier depth reset now later, events = earlier ++ .reading depth reset now :: later →
      ((started KI KP).run earlier).LeadsToTarget depth reset now) ↔
    ∀ earlier depth reset now later, events = earlier ++ .reading depth reset now :: later →
      ((started KI KP).run earlier).on = true →
        ¬ ((started KI KP).run earlier).AtSurface depth := by
  simp only [leadsToTarget_iff]

/-- With the surface as the target, a submarine that is three quarters of a metre deep dives at full
speed. -/
theorem dives_away_from_surface :
    ¬ ∀ (KI KP : ℚ) (events : List DepthEvent), ∀ earlier depth reset now later,
      events = earlier ++ .reading depth reset now :: later →
        ((started KI KP).run earlier).LeadsToTarget depth reset now := by
  intro h
  have hleads := h (15 / 1000) (1 / 2) [.reading (3 / 4) 0 0] [] (3 / 4) 0 0 [] rfl
  have hsent := hleads rfl (by decide +kernel) (setDepthSpeed 1) (by decide +kernel)
  revert hsent
  decide +kernel

/-! ## Time -/

/-- The time of the last reading handled since the controller was switched on, after a message;
`last` is the one before it. -/
def since (d : DepthController) (last : Option ℚ) : DepthEvent → Option ℚ
  | .target _ => last
  | .enable module state => if (d.enabledCallback module state).on then last else none
  | .reading _ _ now => if d.on then some now else last

/-- The time of the last reading handled since the controller was switched on, if there is one. -/
def lastHandled (d : DepthController) (events : List DepthEvent) : Option ℚ :=
  (events.foldl (fun s e => ((s.1.step e).1, s.1.since s.2 e)) (d, none)).2

theorem lastHandled_concat (d : DepthController) (events : List DepthEvent) (e : DepthEvent) :
    d.lastHandled (events ++ [e]) = (d.run events).since (d.lastHandled events) e := by
  have hrun : (events.foldl (fun s e => ((s.1.step e).1, s.1.since s.2 e))
      (d, (none : Option ℚ))).1 = d.run events :=
    (List.foldl_hom Prod.fst fun _ _ => rfl).symm
  rw [lastHandled, List.foldl_append, ← hrun]
  rfl

/-- An update integrates over no more time than there is since the last reading handled in the
period in which the controller is on, and over none when there is no such reading. -/
def WithinPeriod (d : DepthController) (last : Option ℚ) (depth reset now : ℚ) : Prop :=
  d.on = true → d.fullSpeed depth = none →
    d.elapsed (depth - d.targetDepth) reset now ≤ now - last.getD now

/-- The timer belongs to the period. One that is started anew is not started before the last reading
of the period, or before the time of the reading itself when this is the first one. One that goes on
does not go on to the first reading of a period, unless no time has passed. -/
def Stamped (d : DepthController) (last : Option ℚ) (depth reset now : ℚ) : Prop :=
  d.on = true → d.fullSpeed depth = none →
    if d.Restarts (depth - d.targetDepth) then last.getD now ≤ reset
    else last = none → now ≤ d.tOld

/-- The time of the last reading of a period is kept, or integral and error are zero. -/
def Keeps (d : DepthController) (last : Option ℚ) : Prop :=
  ∀ p ∈ last, d.tOld = p ∨ (d.yOld = 0 ∧ d.eOld = 0)

theorem Keeps.step {d : DepthController} {last : Option ℚ} (h : d.Keeps last) (e : DepthEvent) :
    (d.step e).1.Keeps (d.since last e) := by
  intro p hp
  cases e with
  | target data => exact h p hp
  | enable module state =>
    simp only [since] at hp
    split_ifs at hp with hon
    · simp only [DepthController.step, enabledCallback]
      split_ifs
      · exact h p hp
      · exact h p hp
    · cases hp
  | reading depth reset now =>
    simp only [DepthController.step]
    cases hon : d.on with
    | false =>
      rw [currentDepthCallback_of_off hon]
      simp only [since, hon] at hp
      exact h p hp
    | true =>
      obtain rfl : now = p := by simpa [since, hon] using hp
      rw [currentDepthCallback_of_on hon]
      cases d.fullSpeed depth with
      | some speed => exact .inr ⟨rfl, rfl⟩
      | none => exact .inl rfl

theorem keeps_run {d : DepthController} (events : List DepthEvent) :
    (d.run events).Keeps (d.lastHandled events) := by
  induction events using List.reverseRecOn with
  | nil =>
    intro p hp
    cases hp
  | append_singleton events e ih =>
    rw [run_concat, lastHandled_concat]
    exact ih.step e

/-- What is integrated is time of the period exactly when the timer belongs to it. -/
theorem withinPeriod_iff {d : DepthController} {last : Option ℚ} (h : d.Keeps last)
    (depth reset now : ℚ) :
    d.WithinPeriod last depth reset now ↔ d.Stamped last depth reset now := by
  refine forall_congr' fun _ => forall_congr' fun _ => ?_
  unfold elapsed
  rw [sub_le_sub_iff_left]
  split_ifs with hrestarts
  · rfl
  cases last with
  | none => simp
  | some p =>
    -- The reading before it has stamped the timer, since integral and error are not both zero.
    refine iff_of_true ?_ nofun
    rcases h p rfl with heq | ⟨hyOld, heOld⟩
    · exact heq.ge
    · refine absurd ⟨?_, heOld⟩ hrestarts
      unfold integral
      split_ifs
      · rfl
      · exact hyOld

/-- In every run with any gains, targets and times, every update integrates over no more time than
there is since the last reading handled in the same period exactly when the timer of each belongs to
its period. -/
theorem elapsed_within_period_iff (KI KP : ℚ) (events : List DepthEvent) :
    (∀ earlier depth reset now later, events = earlier ++ .reading depth reset now :: later →
      ((started KI KP).run earlier).WithinPeriod ((started KI KP).lastHandled earlier)
        depth reset now) ↔
    ∀ earlier depth reset now later, events = earlier ++ .reading depth reset now :: later →
      ((started KI KP).run earlier).Stamped ((started KI KP).lastHandled earlier)
        depth reset now := by
  simp only [withinPeriod_iff (keeps_run _)]

/-- Half a metre above its target, the controller is off for a hundred seconds. -/
def pausedRun : List DepthEvent :=
  [.target 2, .reading (3 / 2) 0 0, .enable .simpleDepth false, .enable .simpleDepth true]

/-- The time in which it was off is integrated with the first reading after it. -/
theorem pause_integrated :
    ¬ ∀ (KI KP : ℚ) (events : List DepthEvent), ∀ earlier depth reset now later,
      events = earlier ++ .reading depth reset now :: later →
        ((started KI KP).run earlier).WithinPeriod ((started KI KP).lastHandled earlier)
          depth reset now := by
  intro h
  have hwithin := h (15 / 1000) (1 / 2) (pausedRun ++ [.reading (3 / 2) 100 100]) pausedRun (3 / 2)
    100 100 [] rfl
  have hle := hwithin (by decide +kernel) (by decide +kernel)
  revert hle
  decide +kernel

end DepthController

end Guillemot.Motion
