import Guillemot.Library.Loop
import Mathlib.Data.Rat.Floor

/-!
# The task that fires torpedoes

`TorpedoTask.cpp`. `performTask` runs inside a callback and never calls `ros::spinOnce`: the
messages that arrive while it sleeps are queued, and `m_redBuoyLocation` stays what it was. So
`centerOnRedBuoy` sends the same point in every round of its loop, which ends in the first round or
not at all (`centerOnRedBuoy_of_centered`, `centerOnRedBuoy_running`); `performTask_returns_iff`
says for which locations the task returns.

Numbers are rational, without rounding.
-/

namespace Guillemot.Tasks.TorpedoTask

/-! ## Messages -/

/-- `ImgRecObject`, without what the task does not read. -/
structure ImgRecObject where
  center_x : ℤ
  center_y : ℤ
  height : ℕ
deriving DecidableEq, Repr

/-- The messages for the callbacks: on `image_recognition/buoys/red` and on `Module_Enable`. -/
inductive Message where
  | redBuoy (msg : ImgRecObject)
  | moduleEnable (Module : String) (State : Bool)
deriving DecidableEq, Repr

/-- `TorpedoColors`. -/
inductive TorpedoColors where
  | red
  | blue
deriving DecidableEq, Repr

/-- The number of a color. -/
def TorpedoColors.data : TorpedoColors → ℕ
  | .red => 0
  | .blue => 1

/-- What the task publishes: on `High_Level_Motor_Control`, `Center_On_Point` and `Torpedo_Launch`.
-/
inductive Published where
  | highLevelControl (Direction MotionType : String) (Value : ℚ)
  | point (x y : ℤ)
  | torpedo (data : ℕ)
deriving DecidableEq, Repr

/-- The node, with the messages that wait for a callback. -/
structure Node where
  m_redBuoyLocation : ImgRecObject
  queue : List Message
  /-- How often it has slept. -/
  sleeps : ℕ
  published : List Published
deriving DecidableEq, Repr

/-! ## The functions -/

variable (arrivals : ℕ → List Message)

/-- `usleep`: what arrives in the meantime is queued. -/
def Node.usleep (s : Node) : Node :=
  { s with queue := s.queue ++ arrivals s.sleeps, sleeps := s.sleeps + 1 }

/-- A publisher. -/
def Node.publish (s : Node) (o : Published) : Node := { s with published := s.published ++ [o] }

/-- `fireTorpedo`. -/
def Node.fireTorpedo (s : Node) (toShoot : TorpedoColors) : Node :=
  s.publish (.torpedo toShoot.data)

/-- The test of `centerOnRedBuoy` for a point. -/
def Centered (x y : ℤ) : Prop := x ≤ 20 ∧ x ≥ -20 ∧ y ≤ 20 ∧ y ≥ -20

instance (x y : ℤ) : Decidable (Centered x y) := inferInstanceAs (Decidable (_ ∧ _ ∧ _ ∧ _))

/-- A round of the loop of `centerOnRedBuoy`, with `isCentered`. -/
def centerRound (r : Node × Bool) : Option (Node × Bool) :=
  let x := r.1.m_redBuoyLocation.center_x
  let y := r.1.m_redBuoyLocation.center_y
  let s := r.1.publish (.point x y)
  let isCentered := if Centered x y then true else r.2
  some (s.usleep arrivals, isCentered)

/-- `centerOnRedBuoy`. -/
def Node.centerOnRedBuoy (fuel : ℕ) (s : Node) : Outcome (Node × Bool) :=
  Loop.whileLoop (fun r => !r.2) (centerRound arrivals) fuel (s, false)

/-- The first loop of `performTask`, with the `retries` that are left. -/
def waitForBuoy : ℕ → Node → Node × ℕ
  | 0, s => (s, 0)
  | retries + 1, s =>
    if s.m_redBuoyLocation.height = 0 then waitForBuoy retries (s.usleep arrivals)
    else (s, retries + 1)

/-- The second loop, with the `retries` that are left. -/
def approach (fuel : ℕ) : ℕ → Node → Outcome Node
  | 0, s => .done s
  | retries + 1, s =>
    if s.m_redBuoyLocation.height < 75 then do
      let (s, _) ← s.centerOnRedBuoy arrivals fuel
      approach fuel retries (s.usleep arrivals)
    else .done s

/-- Calls of `centerOnRedBuoy`, one after the other. -/
def recenter (fuel : ℕ) : ℕ → Node → Outcome Node
  | 0, s => .done s
  | n + 1, s => do
    let (s, _) ← s.centerOnRedBuoy arrivals fuel
    recenter fuel n s

/-- `performTask` from where the red buoy is identified. -/
def Node.approachAndFire (fuel : ℕ) (s : Node) : Outcome (Node × Bool) := do
  let s := s.publish (.highLevelControl "Forward" "Manual" 75)
  let s ← approach arrivals fuel 150 s
  let s := s.publish (.highLevelControl "Forward" "Manual" 0)
  let s ← recenter arrivals fuel 5 s
  let s := s.fireTorpedo .red
  let s ← recenter arrivals fuel 5 s
  let s := s.fireTorpedo .blue
  pure (s, true)

/-- `performTask`. -/
def Node.performTask (fuel : ℕ) (s : Node) : Outcome (Node × Bool) :=
  match waitForBuoy arrivals 150 (s.publish (.highLevelControl "Forward" "Manual" 75)) with
  | (s, 0) => .done (s, false)
  | (s, _ + 1) => s.approachAndFire arrivals fuel

/-! ## Centering -/

/-- The stored location is in the center. -/
def Node.Centered (s : Node) : Prop :=
  TorpedoTask.Centered s.m_redBuoyLocation.center_x s.m_redBuoyLocation.center_y

instance (s : Node) : Decidable s.Centered :=
  inferInstanceAs (Decidable (TorpedoTask.Centered _ _))

variable {s t : Node} {fuel : ℕ}

@[simp]
theorem Node.publish_location (s : Node) (o : Published) :
    (s.publish o).m_redBuoyLocation = s.m_redBuoyLocation := rfl

@[simp]
theorem Node.fireTorpedo_location (s : Node) (toShoot : TorpedoColors) :
    (s.fireTorpedo toShoot).m_redBuoyLocation = s.m_redBuoyLocation := rfl

@[simp]
theorem Node.usleep_location (s : Node) :
    (s.usleep arrivals).m_redBuoyLocation = s.m_redBuoyLocation := rfl

theorem Node.centered_congr (h : t.m_redBuoyLocation = s.m_redBuoyLocation) :
    t.Centered ↔ s.Centered := by
  unfold Node.Centered
  rw [h]

/-- For a location in the center one round is enough. -/
theorem centerOnRedBuoy_of_centered (h : s.Centered) (hfuel : 0 < fuel) :
    ∃ t, s.centerOnRedBuoy arrivals fuel = .done (t, true) ∧
      t.m_redBuoyLocation = s.m_redBuoyLocation := by
  obtain ⟨fuel, rfl⟩ := Nat.exists_eq_succ_of_ne_zero hfuel.ne'
  let t := (s.publish (.point s.m_redBuoyLocation.center_x s.m_redBuoyLocation.center_y)).usleep
    arrivals
  have hround : Loop.Round (fun r => !r.2) (centerRound arrivals) (s, false) (t, true) := by
    refine ⟨rfl, ?_⟩
    unfold Node.Centered at h
    unfold centerRound
    dsimp only
    rw [if_pos h]
  refine ⟨t, ?_, rfl⟩
  unfold Node.centerOnRedBuoy
  rw [Loop.whileLoop_of_round hround, Loop.whileLoop_of_false rfl]

/-- For any other location the loop goes on for ever: no round changes the location. -/
theorem centerOnRedBuoy_running (h : ¬ s.Centered) (fuel : ℕ) :
    s.centerOnRedBuoy arrivals fuel = .running := by
  refine Loop.running_of_invariant (I := fun r => r.2 = false ∧ ¬ r.1.Centered) ?_ ⟨rfl, h⟩ fuel
  intro r hr
  obtain ⟨hflag, hlocation⟩ := hr
  have hguard : (!r.2) = true := by rw [hflag]; rfl
  refine ⟨_, ⟨hguard, rfl⟩, ?_, hlocation⟩
  unfold Node.Centered at hlocation
  dsimp only
  rw [if_neg hlocation]
  exact hflag

/-! ## The task -/

/-- The second loop returns for a location in the center. -/
theorem approach_of_centered (h : s.Centered) (hfuel : 0 < fuel) (retries : ℕ) :
    ∃ t, approach arrivals fuel retries s = .done t ∧
      t.m_redBuoyLocation = s.m_redBuoyLocation := by
  induction retries generalizing s with
  | zero => exact ⟨s, rfl, rfl⟩
  | succ retries ih =>
    unfold approach
    split_ifs
    · obtain ⟨t, hcenter, ht⟩ := centerOnRedBuoy_of_centered arrivals h hfuel
      have hlocation : (t.usleep arrivals).m_redBuoyLocation = s.m_redBuoyLocation := ht
      obtain ⟨u, happroach, hu⟩ := ih ((Node.centered_congr hlocation).mpr h)
      refine ⟨u, ?_, hu.trans hlocation⟩
      rw [hcenter, Outcome.done_bind]
      exact happroach
    · exact ⟨s, rfl, rfl⟩

/-- So do the calls behind it. -/
theorem recenter_of_centered (h : s.Centered) (hfuel : 0 < fuel) (n : ℕ) :
    ∃ t, recenter arrivals fuel n s = .done t ∧ t.m_redBuoyLocation = s.m_redBuoyLocation := by
  induction n generalizing s with
  | zero => exact ⟨s, rfl, rfl⟩
  | succ n ih =>
    obtain ⟨t, hcenter, ht⟩ := centerOnRedBuoy_of_centered arrivals h hfuel
    obtain ⟨u, hrecenter, hu⟩ := ih ((Node.centered_congr ht).mpr h)
    refine ⟨u, ?_, hu.trans ht⟩
    unfold recenter
    rw [hcenter, Outcome.done_bind]
    exact hrecenter

/-- For any other location the first call does not return. -/
theorem recenter_running (h : ¬ s.Centered) (n : ℕ) :
    recenter arrivals fuel (n + 1) s = .running := by
  unfold recenter
  rw [centerOnRedBuoy_running arrivals h]
  rfl

/-- What follows once the buoy is identified returns for a location in the center. -/
theorem approachAndFire_of_centered (h : s.Centered) (hfuel : 0 < fuel) :
    ∃ t, s.approachAndFire arrivals fuel = .done (t, true) := by
  obtain ⟨t, happroach, ht⟩ := approach_of_centered arrivals
    (s := s.publish (.highLevelControl "Forward" "Manual" 75)) h hfuel 150
  rw [Node.publish_location] at ht
  obtain ⟨u, hfirst, hu⟩ := recenter_of_centered arrivals
    (s := t.publish (.highLevelControl "Forward" "Manual" 0))
    ((Node.centered_congr ht).mpr h) hfuel 5
  rw [Node.publish_location, ht] at hu
  obtain ⟨v, hsecond, -⟩ := recenter_of_centered arrivals (s := u.fireTorpedo .red)
    ((Node.centered_congr hu).mpr h) hfuel 5
  refine ⟨v.fireTorpedo .blue, ?_⟩
  unfold Node.approachAndFire
  dsimp only
  rw [happroach, Outcome.done_bind, hfirst, Outcome.done_bind, hsecond, Outcome.done_bind]
  rfl

/-- And for no other. -/
theorem approachAndFire_running (h : ¬ s.Centered) (fuel : ℕ) :
    s.approachAndFire arrivals fuel = .running := by
  unfold Node.approachAndFire
  dsimp only
  generalize hstart : s.publish (.highLevelControl "Forward" "Manual" 75) = start
  have hlocation : start.m_redBuoyLocation = s.m_redBuoyLocation := by
    rw [← hstart, Node.publish_location]
  have hstray : ¬ start.Centered := fun hc => h ((Node.centered_congr hlocation).mp hc)
  unfold approach
  split_ifs with hfar
  · -- The first call is the one in the second loop.
    rw [centerOnRedBuoy_running arrivals hstray]
    rfl
  · rw [Outcome.done_bind, recenter_running arrivals (s := start.publish _) hstray]
    rfl

/-- Without a buoy the first loop uses up its retries. -/
theorem waitForBuoy_of_zero (h : s.m_redBuoyLocation.height = 0) (retries : ℕ) :
    (waitForBuoy arrivals retries s).2 = 0 := by
  induction retries generalizing s with
  | zero => rfl
  | succ retries ih =>
    unfold waitForBuoy
    rw [if_pos h]
    exact ih h

/-- With a buoy it keeps all of them. -/
theorem waitForBuoy_of_ne_zero (h : s.m_redBuoyLocation.height ≠ 0) (retries : ℕ) :
    waitForBuoy arrivals retries s = (s, retries) := by
  unfold waitForBuoy
  split
  · rfl
  · rw [if_neg h]

/-- Whatever arrives, the task returns exactly for a location without a height, or in the center.
Every call of `centerOnRedBuoy` returns then, since one that does not would be the last. -/
theorem performTask_returns_iff (arrivals : ℕ → List Message) (s : Node) :
    (∃ fuel r, s.performTask arrivals fuel = .done r) ↔
      s.m_redBuoyLocation.height = 0 ∨ s.Centered := by
  unfold Node.performTask
  generalize hstart : s.publish (.highLevelControl "Forward" "Manual" 75) = start
  have hlocation : start.m_redBuoyLocation = s.m_redBuoyLocation := by
    rw [← hstart, Node.publish_location]
  rw [← hlocation, ← Node.centered_congr hlocation]
  by_cases hheight : start.m_redBuoyLocation.height = 0
  · have hretries := waitForBuoy_of_zero arrivals hheight 150
    generalize waitForBuoy arrivals 150 start = found at hretries
    obtain ⟨t, retries⟩ := found
    obtain rfl : retries = 0 := hretries
    exact iff_of_true ⟨0, (t, false), rfl⟩ (.inl hheight)
  · rw [waitForBuoy_of_ne_zero arrivals hheight, or_iff_right hheight]
    constructor
    · rintro ⟨fuel, r, hr⟩
      by_contra hstray
      have hrun : start.approachAndFire arrivals fuel = .done r := hr
      rw [approachAndFire_running arrivals hstray] at hrun
      cases hrun
    · intro hcentered
      obtain ⟨t, ht⟩ := approachAndFire_of_centered arrivals hcentered Nat.zero_lt_one
      exact ⟨1, (t, true), ht⟩

/-- A buoy was seen one pixel too far to the side, and a message that it is in the center waits. -/
def onePixelBeside : Node := ⟨⟨21, 0, 80⟩, [.redBuoy ⟨0, 0, 80⟩], 0, []⟩

/-- From there the task does not return. -/
theorem one_pixel_beside_stuck :
    ¬ ∃ fuel r, onePixelBeside.performTask (fun _ => []) fuel = .done r := by
  rintro ⟨fuel, r, hr⟩
  have hrun : (onePixelBeside.publish (.highLevelControl "Forward" "Manual" 75)).approachAndFire
      (fun _ => []) fuel = .done r := hr
  rw [approachAndFire_running _ (by decide)] at hrun
  cases hrun

end Guillemot.Tasks.TorpedoTask
