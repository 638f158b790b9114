import Guillemot.Library.Script
import Guillemot.Library.Steps
import Mathlib.Data.Rat.Floor

/-!
# The task that bumps two buoys

`BuoysTask.cpp`, with its two arguments and the tangent of the C library. `performTask` and what it
calls are scripts on the samples of the three buoys that publish motions and points and pause in
every call of `ros::spinOnce`; `Place` says which call it is. A `while` loop is a function of its
`retries`, and numbers are rational, without rounding.

The callbacks run in `main`, or in one of these calls: `moduleEnableCallback` may start
`performTask` inside `performTask`. `System.stack` has the running ones, the innermost first. The
log keeps what has been handled, published and completed, and no step reads it.
-/

namespace Guillemot.Tasks

open Script (publish gets update)

/-! ## Messages -/

/-- `BuoyColors`; `other` is any other number that `main` has converted. -/
inductive BuoyColors where
  | green
  | yellow
  | red
  | other
deriving DecidableEq, Repr

/-- `BuoyData`, without what nothing reads. -/
structure BuoyData where
  centerX : ℤ
  centerY : ℤ
  height : ℤ
  width : ℤ
deriving DecidableEq, Repr

/-- The sample lists, the oldest sample first. -/
structure Samples where
  green : List BuoyData
  yellow : List BuoyData
  red : List BuoyData
deriving DecidableEq, Repr

/-- The samples of a color. -/
def Samples.of (σ : Samples) : BuoyColors → List BuoyData
  | .green => σ.green
  | .yellow => σ.yellow
  | .red => σ.red
  | .other => []

/-- The directions of the task. -/
inductive Direction where
  | forward
  | turn
  | depth
deriving DecidableEq, Repr

/-- The motion types of the task. -/
inductive MotionType where
  | manual
  | offset
deriving DecidableEq, Repr

/-- What the task publishes on `High_Level_Motion` and on `Center_On_Point`. -/
inductive Motion where
  | highLevel (direction : Direction) (motionType : MotionType) (value : ℚ)
  | centerOnPoint (x y : ℤ)
deriving DecidableEq, Repr

/-- The calls of `searchBuoys`: in the search for the red buoy, with the rounds behind this one, and
for the first and the second buoy. -/
inductive Search where
  | red (rounds : ℕ)
  | first
  | second
deriving DecidableEq, Repr

/-- The calls of `centerOnBuoy`. -/
inductive Centering where
  | approach
  | first
  | second
  | bump
deriving DecidableEq, Repr

/-- The calls of `ros::spinOnce`. -/
inductive Place where
  | driving
  | turningLeft (search : Search)
  | turningRight (search : Search)
  | centering (caller : Centering) (isCentered : Bool) (retries : ℕ)
  | approaching
  | lettingMessagesIn
  | bumping
  | backingOff
  | leaving
  | rising
  | movingPast
  | diving
deriving DecidableEq, Repr

/-- The rest of a function of the task. -/
abbrev Task (α : Type) := Script Samples Motion Place α

/-- `ros::spinOnce`. -/
def spinOnce (place : Place) : Task Unit := Script.pauseAt place

/-! ## The functions of the task -/

/-- `isBuoyVisible`. -/
def isBuoyVisible (buoy : BuoyColors) : Task Bool := gets fun σ => 3 ≤ (σ.of buoy).length

/-- `clearPastSamples`. -/
def clearPastSamples : Task Unit := update fun _ => ⟨[], [], []⟩

/-- The distance to a buoy of a sample, with the rational number that the code has for `pi`. -/
def distanceInFeet (tan : ℚ → ℚ) (pixelDiameter : ℚ) : ℚ :=
  if pixelDiameter ≠ 0 then
    let theta := pixelDiameter * (314159265 / 100000000 / 4) / (2 * 480)
    9 / (2 * tan theta) / 12
  else -1

/-- `getDistanceToBuoy`. -/
def getDistanceToBuoy (tan : ℚ → ℚ) (buoy : BuoyColors) : Task ℚ :=
  gets fun σ => distanceInFeet tan
    (match (σ.of buoy).getLast? with
    | some data => (data.height + data.width) / 2
    | none => 0)

/-- The two loops of `searchBuoys`. -/
def waitForBuoy (place : Place) (buoy : BuoyColors) : ℕ → Task Unit
  | 0 => pure ()
  | retries + 1 => do
    if ← isBuoyVisible buoy then pure ()
    else
      spinOnce place
      waitForBuoy place buoy retries

/-- `searchBuoys`. -/
def searchBuoys (caller : Search) (buoy : BuoyColors) : Task Unit := do
  publish (.highLevel .turn .offset (-25))
  waitForBuoy (.turningLeft caller) buoy 50
  if ← isBuoyVisible buoy then publish (.highLevel .turn .offset 0)
  else
    publish (.highLevel .turn .offset 50)
    waitForBuoy (.turningRight caller) buoy 75
    if ← isBuoyVisible buoy then publish (.highLevel .turn .offset 0)
    else pure ()

/-- The point of the last sample, if there is more than one. -/
def lastPoint (samples : List BuoyData) : Option (ℤ × ℤ) :=
  if 1 < samples.length then samples.getLast?.map fun data => (data.centerX, data.centerY) else none

/-- What is sent for a point, and whether it is close enough to the center. -/
def sendCenter : Option (ℤ × ℤ) → Task Bool
  | none => pure false
  | some (x, y) => do
    publish (.centerOnPoint x y)
    if x ≤ 75 ∧ x ≥ -75 ∧ y ≤ 75 ∧ y ≥ -75 then
      publish (.centerOnPoint 0 0)
      pure true
    else pure false

/-- The loop of `centerOnBuoy`, with `isCentered`. -/
def centerLoop (caller : Centering) (color : BuoyColors) : ℕ → Bool → Task Bool
  | 0, isCentered => pure isCentered
  | _ + 1, true => pure true
  | retries + 1, false => do
    let samples ← gets (Samples.of · color)
    let isCentered ← sendCenter (lastPoint samples)
    spinOnce (.centering caller isCentered (retries + 1))
    centerLoop caller color retries isCentered

/-- `centerOnBuoy`. -/
def centerOnBuoy (caller : Centering) (color : BuoyColors) : Task Bool := do
  let isCentered ← centerLoop caller color 25 false
  clearPastSamples
  pure isCentered

/-- The loop of `bumpBuoy`, with the rounds that are left. -/
def bumpLoop (color : BuoyColors) : ℕ → Task Unit
  | 0 => pure ()
  | rounds + 1 => do
    publish (.highLevel .forward .offset 2)
    if (50 - (rounds + 1)) % 10 = 0 then
      let _ ← centerOnBuoy .bump color
    spinOnce .bumping
    bumpLoop color rounds

/-- `bumpBuoy`. -/
def bumpBuoy (color : BuoyColors) : Task Unit := do
  bumpLoop color 50
  publish (.highLevel .forward .offset 0)

/-! ## `performTask` -/

/-- The `while` loop of the search for the red buoy. -/
def driveForward : ℕ → Task Unit
  | 0 => pure ()
  | retries + 1 => do
    if ← isBuoyVisible .red then pure ()
    else
      publish (.highLevel .forward .manual 125)
      spinOnce .driving
      driveForward retries

/-- The search for the red buoy, with the rounds that are left. -/
def searchRed : ℕ → Task Unit
  | 0 => pure ()
  | rounds + 1 => do
    if ← isBuoyVisible .red then pure ()
    else
      driveForward 30
      if ← isBuoyVisible .red then pure () else searchBuoys (.red rounds) .red
      searchRed rounds

/-- The loop that centers on the red buoy while the sub comes closer. -/
def approach (tan : ℚ → ℚ) : ℕ → ℚ → Task Unit
  | 0, _ => pure ()
  | retries + 1, distanceToRed =>
    if distanceToRed > 7 ∨ distanceToRed = -1 then do
      let _ ← centerOnBuoy .approach .red
      spinOnce .approaching
      approach tan retries (← getDistanceToBuoy tan .red)
    else pure ()

/-- The loop that lets messages come in. -/
def letMessagesIn : ℕ → Task Unit
  | 0 => pure ()
  | retries + 1 => do
    spinOnce .lettingMessagesIn
    letMessagesIn retries

/-- The loop that centers on a buoy to bump, while it is visible: whether it is centered. -/
def centerToBump (caller : Centering) (color : BuoyColors) : ℕ → Task Bool
  | 0 => pure false
  | retries + 1 => do
    if ← isBuoyVisible color then
      if ← centerOnBuoy caller color then pure true else centerToBump caller color retries
    else pure false

/-- The loop that backs off from the first buoy. -/
def backOff : ℕ → Task Unit
  | 0 => pure ()
  | loopDelayCount + 1 => do
    publish (.highLevel .forward .offset (-2))
    spinOnce .backingOff
    backOff loopDelayCount

/-- A motion, and the call of `ros::spinOnce` behind it. -/
def moveAndSpin (motion : Motion) (place : Place) : Task Unit := do
  publish motion
  spinOnce place

/-- The steps 6 and 7: bumping the second buoy, or giving it up. -/
def bumpOrPass (second : BuoyColors) : Task Bool := do
  if ← centerToBump .second second 20 then
    bumpBuoy second
    clearPastSamples
    moveAndSpin (.highLevel .forward .offset (-7)) .leaving
    pure true
  else
    moveAndSpin (.highLevel .forward .offset 5) .leaving
    pure false

/-- The steps 4 to 7. -/
def bumpSecond (second : BuoyColors) : Task Bool := do
  clearPastSamples
  backOff 75
  if ← isBuoyVisible second then pure () else searchBuoys .second second
  bumpOrPass second

/-- The steps 3 to 10: what follows when the first buoy is centered. -/
def bumpBoth (first second : BuoyColors) : Task Bool := do
  bumpBuoy first
  let taskSuccessful ← bumpSecond second
  moveAndSpin (.highLevel .depth .offset (-2)) .rising
  moveAndSpin (.highLevel .forward .offset 7) .movingPast
  moveAndSpin (.highLevel .depth .offset 2) .diving
  pure taskSuccessful

/-- The steps from where the first buoy is centered. -/
def bumpOrGiveUp (first second : BuoyColors) : Task Bool := do
  if ← centerToBump .first first 20 then bumpBoth first second else pure false

/-- The steps from where the first buoy is looked for. -/
def bumpFirst (first second : BuoyColors) : Task Bool := do
  if ← isBuoyVisible first then pure () else searchBuoys .first first
  bumpOrGiveUp first second

/-- What follows when the red buoy is found. -/
def bumpBuoys (tan : ℚ → ℚ) (first second : BuoyColors) : Task Bool := do
  update fun σ => { σ with green := [], yellow := [] }
  let distanceToRed ← getDistanceToBuoy tan .red
  publish (.highLevel .forward .manual 125)
  approach tan 40 distanceToRed
  publish (.highLevel .forward .manual 0)
  letMessagesIn 10
  bumpFirst first second

/-- `performTask`. -/
def performTask (tan : ℚ → ℚ) (first second : BuoyColors) : Task Bool := do
  searchRed 10
  if ← isBuoyVisible .red then bumpBuoys tan first second else pure false

/-! ## The node -/

/-- A message that a callback handles: one about a buoy, or one on `Module_Enable`, whether it names
this task and its `State`. -/
inductive Message where
  | buoy (color : BuoyColors) (center_x center_y height width : ℤ)
  | moduleEnable (own state : Bool)
deriving DecidableEq, Repr

/-- What has happened. -/
inductive Entry where
  | handled (msg : Message)
  | published (motion : Motion)
  | completed (status : Bool)
deriving DecidableEq, Repr

/-- The node. -/
structure System where
  samples : Samples
  isEnabled : Bool
  stack : List (Task Bool)
  log : List Entry

/-- The start. -/
def System.init : System := ⟨⟨[], [], []⟩, false, [], []⟩

/-- A number as a `short`. -/
def toShort (n : ℤ) : ℤ := n.bmod 65536

/-- A sample behind the others, of which at most 50 are kept. -/
def addSample (samples : List BuoyData) (data : BuoyData) : List BuoyData :=
  if 50 < (samples ++ [data]).length then (samples ++ [data]).drop 1 else samples ++ [data]

/-- `greenBuoyCallback`, `yellowBuoyCallback` and `redBuoyCallback`. -/
def Samples.buoyCallback (σ : Samples) (data : BuoyData) : BuoyColors → Samples
  | .green => { σ with green := addSample σ.green data }
  | .yellow => { σ with yellow := addSample σ.yellow data }
  | .red => { σ with red := addSample σ.red data }
  | .other => σ

/-- The task that a node runs: its tangent and its two buoys. -/
structure Setup where
  tan : ℚ → ℚ
  m_firstToBump : BuoyColors
  m_secondToBump : BuoyColors

/-- `performTask` of a node. -/
def Setup.performTask (c : Setup) : Task Bool :=
  Tasks.performTask c.tan c.m_firstToBump c.m_secondToBump

/-- The callback that handles a message. The one that enables the task goes on with `performTask`.
-/
def System.handle (c : Setup) (s : System) (msg : Message) : System :=
  let s := { s with log := s.log ++ [.handled msg] }
  match msg with
  | .buoy color x y height width =>
    if s.isEnabled then
      { s with samples := s.samples.buoyCallback ⟨x, y, toShort height, toShort width⟩ color }
    else s
  | .moduleEnable true true => { s with isEnabled := true, stack := c.performTask :: s.stack }
  | .moduleEnable true false => { s with isEnabled := false }
  | .moduleEnable false _ => s

/-- What can happen. -/
inductive Event where
  /-- A message is handled, in `main` or in a call of `ros::spinOnce`. -/
  | message (msg : Message)
  /-- The innermost `performTask` does a statement, returns from `ros::spinOnce`, or ends. -/
  | run
deriving DecidableEq, Repr

/-- Whether callbacks can run. -/
def System.spinning (s : System) : Bool := s.stack.head?.all (·.place?.isSome)

/-- The innermost `performTask` goes on. When it has ended, the callback that started it goes on. -/
def System.run (s : System) : Option System :=
  match s.stack with
  | [] => none
  | .done status :: rest =>
    some { s with isEnabled := false, stack := rest, log := s.log ++ [.completed status] }
  | .emit motion task :: rest =>
    some { s with stack := task :: rest, log := s.log ++ [.published motion] }
  | .pause _ task :: rest => some { s with stack := task :: rest }
  | .read task :: rest => some { s with stack := task s.samples :: rest }
  | .write f task :: rest => some { s with samples := f s.samples, stack := task :: rest }

/-- One step; `none` where it cannot happen. -/
def System.step (c : Setup) (s : System) : Event → Option System
  | .message msg => if s.spinning then some (s.handle c msg) else none
  | .run => s.run

/-- One step of a run. -/
def System.Next (c : Setup) (s t : System) : Prop :=
  Steps.Moves (System.step c) (fun _ _ => True) s t

/-- The motion that an entry of the log is about. -/
def Entry.motion? : Entry → Option Motion
  | .published motion => some motion
  | _ => none

/-- The motions that have been published. -/
def System.motions (s : System) : List Motion := s.log.filterMap Entry.motion?

end Guillemot.Tasks
