import Guillemot.Library.Streak
import Mathlib.Data.Rat.Floor

/-!
# The task that aligns with a path

`PathTask.py`. A callback, and a round of the loop of `motor_watcher`, is handled as a whole: it
gives the fields of the task afterwards and what has happened in it. What `time.time()` returns is
part of the event. Numbers are rational, without rounding.

`select_correct_path` returns a path where there is one, and else a pair (`Selected`);
`align_to_path` raises an error for a pair, which has no `center_x`.
-/

namespace Guillemot.Tasks.PathTask

/-! ## Messages -/

/-- `ImgRecObject`, without what nothing reads. -/
structure ImgRecObject where
  id : ℤ
  center_x : ℤ
  center_y : ℤ
  rotation : ℚ
deriving DecidableEq, Repr

/-- The directions of the motors: `'Forward'`, `'Straf'` and `'Turn'`. -/
inductive Motor where
  | forward
  | strafe
  | turn
deriving DecidableEq, Repr

/-- The motion types: `'Command'` and `'Manual'`. -/
inductive MotionType where
  | command
  | manual
deriving DecidableEq, Repr

/-- `HighLevelControl`. -/
structure HighLevelControl where
  Direction : Motor
  Value : ℚ
  MotionType : MotionType
deriving DecidableEq, Repr

/-- What the task publishes: on `High_Level_Motion`, and on `Task_Completion`. -/
inductive Published where
  | motion (msg : HighLevelControl)
  | completion (data : String)
deriving DecidableEq, Repr

/-- The directions that a path is followed in, `'left'` and `'right'`. -/
inductive Side where
  | left
  | right
deriving DecidableEq, Repr

/-! ## The fields of the task -/

/-- `SCALE_FORWARD`. -/
def SCALE_FORWARD : ℚ := 17 / 10000

/-- `SCALE_STRAFE`. -/
def SCALE_STRAFE : ℚ := 1 / 100

/-- `SCALE_TURN`. -/
def SCALE_TURN : ℚ := 1 / 180

/-- `SUCCESS_GOAL`. -/
def SUCCESS_GOAL : ℕ := 10

/-- `TH_ROT`. -/
def TH_ROT : ℚ := 1

/-- `TH_X`. -/
def TH_X : ℤ := 50

/-- `TH_Y`. -/
def TH_Y : ℤ := 50

/-- The fields that the callbacks read and write. -/
structure State where
  can_turn : Bool
  direction : Side
  enabled : Bool
  last_motor_change : ℚ
  paths : List ImgRecObject
  success_counter : ℕ
deriving DecidableEq, Repr

/-- `__init__`. -/
def State.init : State := ⟨true, .right, false, 0, [], 0⟩

/-- What `select_correct_path` returns: a path, or the pair `best`. -/
inductive Selected where
  | path (path : ImgRecObject)
  | best (center_x : ℤ) (path : Option ImgRecObject)
deriving DecidableEq, Repr

/-- What happens in a callback: the task is enabled, `align_to_path` is called, or a message is
published. -/
inductive Entry where
  | enabled
  | aligning (path : Selected)
  | published (o : Published)
deriving DecidableEq, Repr

/-! ## The methods -/

/-- `publish_motor`. -/
def publish_motor (direction : Motor) (value : ℚ) : Published :=
  .motion ⟨direction, value, if direction = .turn then .manual else .command⟩

/-- `stop_motors`. -/
def State.stop_motors (s : State) : State × List Published :=
  ({ s with last_motor_change := 0 },
    [publish_motor .forward 0, publish_motor .strafe 0, publish_motor .turn 0])

/-- `task_complete`. The conditional expression takes in the name of the task. -/
def State.task_complete (s : State) (result : Bool) : State × List Published :=
  let stopped := { s with enabled := false }.stop_motors
  (stopped.1, .completion (if result then "PathTask " ++ "Success" else "Failure") :: stopped.2)

/-- The test of `align_to_path` for strafing. -/
def OffX (path : ImgRecObject) : Prop := path.center_x > TH_X ∨ path.center_x < -TH_X

/-- The test for moving forward. -/
def OffY (path : ImgRecObject) : Prop := path.center_y > TH_Y ∨ path.center_y < -TH_Y

/-- The test for turning. -/
def OffRotation (path : ImgRecObject) : Prop := path.rotation > TH_ROT ∨ path.rotation < -TH_ROT

instance (path : ImgRecObject) : Decidable (OffX path) := inferInstanceAs (Decidable (_ ∨ _))
instance (path : ImgRecObject) : Decidable (OffY path) := inferInstanceAs (Decidable (_ ∨ _))
instance (path : ImgRecObject) : Decidable (OffRotation path) :=
  inferInstanceAs (Decidable (_ ∨ _))

/-- The first part of `align_to_path`: what is published for a path. -/
def State.motors (s : State) (path : ImgRecObject) : List Published :=
  [publish_motor .strafe (if OffX path then path.center_x * SCALE_STRAFE else 0),
    publish_motor .forward (if OffY path then path.center_y * SCALE_FORWARD else 0),
    publish_motor .turn
      (if s.can_turn ∧ OffRotation path then path.rotation * SCALE_TURN else 0)]

/-- `did_something`. -/
def State.DidSomething (s : State) (path : ImgRecObject) : Prop :=
  OffX path ∨ OffY path ∨ s.can_turn ∧ OffRotation path

instance (s : State) (path : ImgRecObject) : Decidable (s.DidSomething path) :=
  inferInstanceAs (Decidable (_ ∨ _ ∨ _))

/-- The second part, which counts. -/
def State.count (s : State) (path : ImgRecObject) (now : ℚ) : State × List Published :=
  if s.DidSomething path then ({ s with success_counter := 0, last_motor_change := now }, [])
  else
    let s := { s with success_counter := s.success_counter + 1 }
    if s.success_counter ≥ SUCCESS_GOAL then
      if s.can_turn then s.task_complete true
      else ({ s with can_turn := true, success_counter := 0 }, [])
    else (s, [])

/-- `align_to_path`; `none` where it raises an error. -/
def State.align_to_path (s : State) (path : Selected) (now : ℚ) :
    Option (State × List Published) :=
  match path with
  | .path path => some ((s.count path now).1, s.motors path ++ (s.count path now).2)
  | .best _ _ => none

/-- A round of the loop for `'left'`. -/
def lower (best : ℤ × Option ImgRecObject) (path : ImgRecObject) : ℤ × Option ImgRecObject :=
  if path.center_x < best.1 then (path.center_x, some path) else best

/-- A round of the loop for `'right'`. -/
def higher (best : ℤ × Option ImgRecObject) (path : ImgRecObject) : ℤ × Option ImgRecObject :=
  if path.center_x > best.1 then (path.center_x, some path) else best

/-- `select_correct_path`. -/
def State.select_correct_path (s : State) : Selected :=
  match s.paths with
  | [path] => .path path
  | paths =>
    let best :=
      match s.direction with
      | .left => paths.foldl lower (9999, none)
      | .right => paths.foldl higher (-9999, none)
    .best best.1 best.2

/-! ## The callbacks -/

/-- `image_recognition_cb`. An error in `align_to_path` ends the callback. -/
def State.image_recognition_cb (s : State) (path : ImgRecObject) (now : ℚ) :
    State × List Entry :=
  if s.enabled then
    if s.paths ≠ [] ∧ path.id = 0 then
      let selected := s.select_correct_path
      match s.align_to_path selected now with
      | none => (s, [.aligning selected])
      | some (t, published) =>
        ({ t with paths := [path] }, .aligning selected :: published.map .published)
    else ({ s with paths := s.paths ++ [path] }, [])
  else (s, [])

/-- `module_enable_cb`. -/
def State.module_enable_cb (s : State) (module : String) (state : Bool) : State × List Entry :=
  if module = "PathTask" then
    let t := { s with
      can_turn := false, enabled := state, paths := [], success_counter := 0,
      last_motor_change := 0 }
    if state then (t, [.enabled]) else (t.stop_motors.1, t.stop_motors.2.map .published)
  else (s, [])

/-- A round of the loop of `motor_watcher`. -/
def State.motor_watcher (s : State) (now : ℚ) : State × List Entry :=
  if s.enabled ∧ s.last_motor_change ≠ 0 then
    if now - s.last_motor_change > 3 then
      ((s.task_complete false).1, (s.task_complete false).2.map .published)
    else (s, [])
  else (s, [])

/-- `path_direction_cb`. -/
def State.path_direction_cb (s : State) (data : String) : State × List Entry :=
  if data = "left" then ({ s with direction := .left }, [])
  else if data = "right" then ({ s with direction := .right }, [])
  else (s, [])

/-- What can happen, with what `time.time()` returns in it. -/
inductive Event where
  | image (path : ImgRecObject) (now : ℚ)
  | moduleEnable (module : String) (state : Bool)
  | pathDirection (data : String)
  | watcher (now : ℚ)
deriving DecidableEq, Repr

/-- An event. -/
def State.handle (s : State) : Event → State × List Entry
  | .image path now => s.image_recognition_cb path now
  | .moduleEnable module state => s.module_enable_cb module state
  | .pathDirection data => s.path_direction_cb data
  | .watcher now => s.motor_watcher now

/-- Events one after the other, from the start: the fields, and all that has happened. -/
def run (events : List Event) : State × List Entry :=
  events.foldl (fun r event => ((r.1.handle event).1, r.2 ++ (r.1.handle event).2)) (.init, [])

end Guillemot.Tasks.PathTask
