import Guillemot.Library.Script
import Guillemot.Library.Steps
import Mathlib.Data.Rat.Floor

/-!
# The state that follows a path

`NewPathTask.py`, with the functions of `utils.py` that publish motions. `execute` runs in the
thread of the state machine, up to its `return`. Every message on a topic that it has subscribed to
is handled in a thread of its own by the callbacks that were subscribed, one after the other; each
`execute` subscribes once more. The threads run in any order, statement by statement, on the fields
of the task and on `move.msg`, which all motions share.

Numbers are rational, without rounding; `/` between integers rounds down, as in the Python of the
repository. The log is read by no step.
-/

namespace Guillemot.Brain

open Script (publish gets update pauseAt)

/-! ## Shared data and messages -/

/-- The directions of `utils.py`. -/
inductive Direction where
  | forward
  | strafe
  | turn
  | dive
deriving DecidableEq, Repr

/-- `HighLevelControl`. The motion type is `COMMAND` in every motion, and empty at the start. -/
structure HighLevelControl where
  Direction : Option Direction
  MotionType : String
  Value : ℚ
deriving DecidableEq, Repr

/-- `ImgRecObject`, without what nothing reads. -/
structure ImgRecObject where
  center_x : ℤ
  center_y : ℤ
  rotation : ℚ
deriving DecidableEq, Repr

/-- The fields of the task, the request to preempt it, `move.msg`, and how often the callbacks have
been subscribed. -/
structure Shared where
  is_complete : Bool
  foundObj : Bool
  timeout : ℤ
  preemptRequested : Bool
  msg : HighLevelControl
  sub : ℕ
  objSub : ℕ
deriving DecidableEq, Repr

/-- What the task publishes: on `/High_Level_Motion`, and on `/Module_Enable` its name and a state.
-/
inductive Published where
  | motion (msg : HighLevelControl)
  | moduleEnable (state : Bool)
deriving DecidableEq, Repr

/-- A published motion. -/
def Published.isMotion : Published → Bool
  | .motion _ => true
  | .moduleEnable _ => false

/-- The rest of a function of the task. It pauses in `rospy.sleep` only. -/
abbrev Task (α : Type) := Script Shared Published Unit α

/-! ## `utils.py` -/

/-- `move`, with the motion type `COMMAND`. -/
def move (direction : Direction) (value : ℚ) : Task Unit := do
  update fun s => { s with msg := { s.msg with Direction := some direction } }
  update fun s => { s with msg := { s.msg with MotionType := "Command" } }
  update fun s => { s with msg := { s.msg with Value := value } }
  let msg ← gets Shared.msg
  publish (.motion msg)

/-- `turn`. -/
def turn (value : ℚ) : Task Unit := move .turn value

/-- `forward`. -/
def forward (value : ℚ) : Task Unit := do
  move .turn 0
  move .forward value

/-- `strafe`. -/
def strafe (value : ℚ) : Task Unit := move .strafe value

/-- `dive`. -/
def dive (value : ℚ) : Task Unit := move .dive value

/-! ## The callbacks -/

/-- `extendTimeout`. -/
def extendTimeout : Task Unit := do
  if (← gets Shared.timeout) < 30 then
    let timeout ← gets Shared.timeout
    update fun s => { s with timeout := timeout }
  else
    update fun s => { s with timeout := 30 }

/-- `centerX`. -/
def centerX (msg : ImgRecObject) : Task Bool := do
  if |msg.center_x| > 30 then
    strafe (-(msg.center_x / 300 : ℤ))
    pure false
  else
    strafe 0
    pure true

/-- `centerY`. -/
def centerY (msg : ImgRecObject) : Task Bool := do
  if |msg.center_y| > 30 then
    forward (-(msg.center_y / 400 : ℤ))
    pure false
  else
    forward 0
    pure true

/-- `alignToPath`. -/
def alignToPath (msg : ImgRecObject) : Task Unit := do
  if |msg.rotation| < 3 then
    turn 0
    update fun s => { s with is_complete := true }
  else turn (-(msg.rotation / 92))

/-- `centerOnPath`. -/
def centerOnPath (msg : ImgRecObject) : Task Unit := do
  if ← centerX msg then
    if ← centerY msg then alignToPath msg else pure ()
  else pure ()

/-- `objCallback`. -/
def objCallback (msg : ImgRecObject) : Task Unit := do
  update fun s => { s with foundObj := true }
  extendTimeout
  forward 0
  centerOnPath msg

/-- `task_complete`: whether the message names this task is an input. -/
def task_complete (own : Bool) : Task Unit :=
  if own then update fun s => { s with is_complete := true } else pure ()

/-- A callback that is called several times. -/
def calls (callback : Task Unit) : ℕ → Task Unit
  | 0 => pure ()
  | n + 1 => do
    callback
    calls callback n

/-! ## `execute` -/

/-- The outcomes of `execute`. -/
inductive Outcome where
  | succeeded
  | preempted
  | timeout
deriving DecidableEq, Repr

/-- `disable_task`. -/
def disable_task : Task Unit := publish (.moduleEnable false)

/-- `execute` between its subscriptions and its loop. -/
def enable : Task (Option Outcome) := do
  publish (.moduleEnable true)
  dive 4
  pure none

/-- `execute` from where it subscribes to `img_rec/paths`, up to its loop. -/
def subscribeToPaths : Task (Option Outcome) := do
  update fun s => { s with objSub := s.objSub + 1 }
  enable

/-- `execute` up to its loop. -/
def start : Task (Option Outcome) := do
  update fun s => { s with sub := s.sub + 1 }
  subscribeToPaths

/-- A round of the loop of `execute`, from its condition on: the outcome, or none for another
round. -/
def round : Task (Option Outcome) := do
  if (← gets Shared.timeout) > 0 then
    if ← gets Shared.is_complete then
      disable_task
      pure (some .succeeded)
    else if ← gets Shared.preemptRequested then
      disable_task
      update fun s => { s with preemptRequested := false }
      pure (some .preempted)
    else
      forward (35 / 100)
      pauseAt ()
      let timeout ← gets Shared.timeout
      update fun s => { s with timeout := timeout - 1 }
      pure none
  else
    disable_task
    pure (some .timeout)

/-! ## The threads -/

/-- What has happened. -/
inductive Entry where
  | published (o : Published)
  | returned (outcome : Outcome)
deriving DecidableEq, Repr

/-- The task, with `execute` while it runs and the threads that handle messages. -/
structure System where
  shared : Shared
  main : Option (Task (Option Outcome))
  callbacks : List (Task Unit)
  log : List Entry

/-- The start. -/
def System.init : System := ⟨⟨false, false, 100, false, ⟨none, "", 0⟩, 0, 0⟩, none, [], []⟩

/-- The messages: on `img_rec/paths`, and on `/Task_Completion` whether it names this task. -/
inductive Message where
  | path (msg : ImgRecObject)
  | completion (own : Bool)
deriving DecidableEq, Repr

/-- What can happen. -/
inductive Event where
  /-- The state machine calls `execute`. -/
  | execute
  /-- The state machine asks the task to end. -/
  | requestPreempt
  /-- A message arrives. -/
  | message (msg : Message)
  /-- `execute` does a statement. -/
  | main
  /-- A callback does a statement. -/
  | callback (i : ℕ)
deriving DecidableEq, Repr

/-- A statement of a script: the shared data, what is published, and what is left. At its end there
is none. -/
def statement {α : Type} (s : Shared) : Task α → Option (Shared × List Entry × Task α)
  | .done _ => none
  | .emit o rest => some (s, [.published o], rest)
  | .pause _ rest => some (s, [], rest)
  | .read rest => some (s, [], rest s)
  | .write f rest => some (f s, [], rest)

/-- `execute` goes on: with a statement, with the next round of its loop, or with its end. -/
def System.runMain (s : System) : Task (Option Outcome) → Option System
  | .done none => some { s with main := some round }
  | .done (some outcome) =>
    some { s with main := none, log := s.log ++ [.returned outcome] }
  | task => (statement s.shared task).map fun (shared, entries, rest) =>
    { s with shared := shared, main := some rest, log := s.log ++ entries }

/-- The thread that handles a message. -/
def Message.thread (msg : Message) (s : Shared) : Task Unit :=
  match msg with
  | .path msg => calls (objCallback msg) s.objSub
  | .completion own => calls (task_complete own) s.sub

/-- One step; `none` where it cannot happen. -/
def System.step (s : System) : Event → Option System
  | .execute =>
    match s.main with
    | none => some { s with main := some start }
    | some _ => none
  | .requestPreempt => some { s with shared := { s.shared with preemptRequested := true } }
  | .message msg => some { s with callbacks := s.callbacks ++ [msg.thread s.shared] }
  | .main => s.main.bind s.runMain
  | .callback i =>
    match s.callbacks[i]? with
    | none => none
    | some task =>
      (statement s.shared task).map fun (shared, entries, rest) =>
        { s with shared := shared, callbacks := s.callbacks.set i rest, log := s.log ++ entries }

/-- One step of a run. -/
def System.Next (s t : System) : Prop := Steps.Moves System.step (fun _ _ => True) s t

/-- Whether an entry of the log is about a motion. -/
def Entry.isMotion : Entry → Bool
  | .published o => o.isMotion
  | .returned _ => false

/-- The motions that the task has published. -/
def System.motions (s : System) : List Entry := s.log.filter Entry.isMotion

end Guillemot.Brain
