import Guillemot.Library.Bindings
import Guillemot.Library.Raising
import Guillemot.StateMachine.Values

/-!
# The state machine node

The functions of `SubStateMachine.py` under their names, as computations on the global variables of
the node that may raise (`Node`). `World` is what the node depends on from outside: the class files,
the clock, whether publishing works, and the order in which a set is iterated. The answers are
functions of the number of questions asked before, so that they can be different each time. The text
that the node prints is left out.

The lists of active triggers and of timers are list objects that change in place or are replaced, as
`Bindings` has it. `log` and the identities of timers are not read by any function of the source
other than to tell timers apart; `log` records what the statements about runs speak of.
-/

namespace Guillemot.StateMachine

/-! ## Data -/

/-- `Effect`. -/
structure Effect where
  etype : Text
  arguments : List Text
deriving DecidableEq, Repr

/-- `Trigger`. -/
structure Trigger (F : Type) where
  mClassName : Text
  mTopic : Text
  mType : Text
  mOp : Text
  mValue : Value F
  mEffect : Effect
deriving DecidableEq, Repr

/-- `Timer`. No two timers have the same `id`. -/
structure Timer (F : Type) where
  id : ℕ
  Class : Text
  endTime : F
  effect : Effect
deriving DecidableEq, Repr

/-- The messages that are published. -/
inductive Message (F : Type) where
  | string (data : Text)
  | float32 (data : Value F)
  | int32 (data : Value F)
  | moduleEnable (module : Value F) (state : Bool)
  /-- With `MotionType="Offset"`. -/
  | highLevelControl (direction : Value F) (value : F)
deriving DecidableEq, Repr

/-- What is recorded of a run. -/
inductive Event (F : Type) where
  /-- `ChangeState` has begun. -/
  | changeState (newState : Text)
  | setup (Class : Text)
  | tearDown (Class : Text)
  /-- `AddTimers` has begun. -/
  | addTimers (Class : Text)
  /-- A timer has been added. -/
  | timer (timer : Timer F)
  /-- A timer has gone off. -/
  | fired (timer : Timer F)
  | published (topic : Value F) (message : Message F)
deriving DecidableEq, Repr

/-- The global variables of the node. The type of a listener is the one that it was made with. -/
structure Machine (F : Type) where
  currentClasses : ClassSet
  listenerTypes : List (Text × Text)
  listenerCache : Bindings Text (Trigger F)
  gTimers : Bindings Unit (Timer F)
  gTimers_bound : () ∈ gTimers.keys
  /-- The number of questions asked of the world. -/
  asked : ℕ
  log : List (Event F)

/-- What the node depends on from outside. -/
structure World (F : Type) where
  files : Files
  /-- `time()`. -/
  time : ℕ → F
  /-- Whether `getPublisher` finds a publisher. -/
  publisher : ℕ → Value F → Bool
  /-- Whether `publish` returns. -/
  publish : ℕ → Value F → Message F → Bool
  /-- The order in which the members of a set are iterated. -/
  order : ℕ → List Text → List Text
  order_perm : ∀ n names, (order n names).Perm names
  /-- The text of an empty image record. -/
  imgText : Text

/-- A world in which publishing works, the clock shows the number of questions asked, and a set is
iterated in the order of the list that it is kept in. -/
def World.reliable (files : Files) : World ℚ where
  files := files
  time n := n
  publisher _ _ := true
  publish _ _ _ := true
  order _ names := names
  order_perm _ _ := .refl _
  imgText := []

/-- A computation on the global variables that may raise. -/
abbrev Node (F : Type) := EStateM Raised (Machine F)

variable {F : Type}

/-- The active triggers of the listener of a topic. -/
def Machine.active (m : Machine F) (topic : Text) : List (Trigger F) := m.listenerCache.get topic

/-- The contents of `gTimers`. -/
def Machine.timers (m : Machine F) : List (Timer F) := m.gTimers.get ()

/-- The state in which the node is started. -/
def Machine.initial : Machine F where
  currentClasses := .empty
  listenerTypes := []
  listenerCache := .empty
  gTimers := Bindings.empty.bind ()
  gTimers_bound := (Bindings.mem_keys_bind _ _ _).mpr (.inl rfl)
  asked := 0
  log := []

/-- The number of the next question. -/
def ask : Node F ℕ := fun m => .ok m.asked { m with asked := m.asked + 1 }

/-- An event is recorded. -/
def record (event : Event F) : Node F Unit := fun m => .ok () { m with log := m.log ++ [event] }

/-- What a pure function returns or raises. -/
def attempt {α : Type} (result : Except Raised α) : Node F α :=
  match result with
  | .ok a => pure a
  | .error e => throw e

/-! ## Messages -/

section Messages

variable [PythonFloat F]

/-- `fields[i]`. -/
def fieldAt (fields : List (Value F)) (i : ℕ) : Except Raised (Value F) :=
  match fields[i]? with
  | some field => .ok field
  | none => .error .indexError

/-- `string.join`, with spaces between the fields. -/
def join : List (Value F) → Except Raised Text
  | [] => .ok []
  | [.str text] => .ok text
  | .str text :: fields => do return text ++ ' ' :: (← join fields)
  | _ => .error .typeError

/-- `getPublisher`, where the attribute `publish` of the result is read at once. -/
def getPublisher (world : World F) (topic : Value F) : Node F Unit := do
  let n ← ask
  if world.publisher n topic then pure () else throw .attributeError

/-- `publish`. -/
def publish (world : World F) (topic : Value F) (message : Message F) : Node F Unit := do
  let n ← ask
  if world.publish n topic message then record (.published topic message)
  else throw .serializationError

/-- The message that `SendMessage` makes of its fields. -/
def makeMessage (kind : Value F) (fields : List (Value F)) : Except Raised (Message F) := do
  if kind.isText "string" then return .string (← join (fields.drop 2))
  else if kind.isText "float" then return .float32 (← fieldAt fields 2)
  else if kind.isText "int" then return .int32 (← fieldAt fields 2)
  else if kind.isText "activate" then return .moduleEnable (← fieldAt fields 2) true
  else if kind.isText "deactivate" then return .moduleEnable (← fieldAt fields 2) false
  else
    let direction ← fieldAt fields 2
    return .highLevelControl direction (← (← fieldAt fields 3).toFloat)

/-- The kinds of messages that `SendMessage` knows. -/
def messageKinds : List String := ["string", "float", "int", "activate", "deactivate", "move"]

/-- `SendMessage`. Messages of another kind are not sent. -/
def sendMessage (world : World F) (fields : List (Value F)) : Node F Unit := do
  let kind ← attempt (fieldAt fields 1)
  if messageKinds.any kind.isText then
    let topic ← attempt (fieldAt fields 0)
    getPublisher world topic
    publish world topic (← attempt (makeMessage kind fields))

/-- `DispatchMessages`. A blank line has no first word, so that it raises. -/
def dispatchMessages (world : World F) (data : Text) : Node F Unit :=
  forM (lines (strip data)) fun message =>
    match words message with
    | [] => throw .indexError
    | action :: fields =>
      if action = "message".toList then sendMessage world (fields.map .str) else pure ()

/-- `Setup`. -/
def setup (world : World F) (Class : Text) : Node F Unit := do
  record (.setup Class)
  forM (sections (openClassFile world.files Class)) fun (name, data) =>
    if name = "Setup".toList ∧ data ≠ [] then dispatchMessages world data else pure ()

/-- `TearDown`. -/
def tearDown (world : World F) (Class : Text) : Node F Unit := do
  record (.tearDown Class)
  forM (sections (openClassFile world.files Class)) fun (name, data) =>
    if name = "TearDown".toList then dispatchMessages world data else pure ()

end Messages

/-! ## Triggers -/

section Triggers

variable [PythonFloat F]

/-- The value that `Trigger.__init__` makes of a text. -/
def parseValue (ttype value : Text) : Except Raised (Value F) :=
  if ttype = "int".toList then
    match parseInt value with
    | some n => .ok (.int n)
    | none => .error .valueError
  else if ttype = "float".toList then
    match ofText value with
    | some x => .ok (.float x)
    | none => .error .valueError
  else if ttype = "img".toList then .ok .img
  else .ok (.str value)

/-- `Trigger.__init__`. -/
def Trigger.make (Class topic ttype op value : Text) (effect : Effect) :
    Except Raised (Trigger F) :=
  match parseValue ttype value with
  | .ok mValue => .ok ⟨Class, topic, ttype, op, mValue, effect⟩
  | .error e => .error e

/-- The trigger that a line says, as `AddTrigger` reads it. Lines that are not well formed say
nothing. -/
def readTrigger (Class trigger : Text) : Except Raised (Option (Trigger F)) :=
  if strip trigger = [] then .ok none
  else
    match words trigger with
    | topic :: ttype :: op :: value :: keyword :: etype :: arg :: args =>
      if keyword ≠ "triggers".toList then .ok none
      else
        match Trigger.make Class topic ttype op value ⟨etype, arg :: args⟩ with
        | .ok t => .ok (some t)
        | .error e => .error e
    | _ => .ok none

/-- `getListener`, and the trigger appended to its active triggers. -/
def Machine.appendTrigger (m : Machine F) (t : Trigger F) : Machine F :=
  { m with
    listenerTypes :=
      if t.mTopic ∈ m.listenerCache.keys then m.listenerTypes
      else m.listenerTypes ++ [(t.mTopic, t.mType)]
    listenerCache := (m.listenerCache.bind t.mTopic).modify t.mTopic (· ++ [t]) }

/-- `AddTrigger`. -/
def addTrigger (Class trigger : Text) : Node F Unit :=
  Raising.readThen (readTrigger Class) Machine.appendTrigger trigger

/-- `AddTriggers`. -/
def addTriggers (world : World F) (Class : Text) : Node F Unit :=
  forM (sections (openClassFile world.files Class)) fun (name, data) =>
    if name = "Triggers".toList then
      forM (lines data) fun trigger =>
        if strip trigger = [] then pure () else addTrigger Class trigger
    else pure ()

/-- `RemoveTriggers`. -/
def removeTriggers (Class : Text) : Node F Unit := fun m =>
  .ok () { m with listenerCache := m.listenerCache.rebindAll (·.filter (·.mClassName ≠ Class)) }

end Triggers

/-! ## Timers -/

section Timers

variable [PythonFloat F]

/-- `fields[1]` in milliseconds, for the units that are left after the milliseconds themselves. -/
def inMilliseconds (number unit : Text) : Except Raised (Option F) :=
  let scaled (scale : ℤ) : Except Raised (Option F) :=
    match ofText number with
    | some x => .ok (some (PythonFloat.mul x (ofInt scale)))
    | none => .error .valueError
  if unit = "seconds".toList ∨ unit = "s".toList then scaled 1000
  else if unit = "minutes".toList ∨ unit = "m".toList then scaled 60000
  else if unit = "hours".toList ∨ unit = "h".toList then scaled 3600000
  else if unit = "days".toList ∨ unit = "d".toList then scaled 86400000
  else .ok none

/-- The delay and the effect of the timer that a line says, as `addTimer` reads it. A number of
milliseconds is read, and then refused as having an unknown unit. -/
def readTimer (timer : Text) : Except Raised (Option (F × Effect)) :=
  if strip timer = [] then .ok none
  else
    match words timer with
    | after :: number :: unit :: keyword :: etype :: arg :: args =>
      if after.map Char.toLower ≠ "after".toList ∨ keyword ≠ "do".toList then .ok none
      else do
        -- The number is read here, and the unit is refused below.
        if unit = "milliseconds".toList ∨ unit = "ms".toList then
          if (ofText number : Option F).isNone then throw .valueError
        return (← inMilliseconds number unit).map fun ms => (ms, ⟨etype, arg :: args⟩)
    | _ => .ok none

/-- `Timer.__init__`, with the number of the question for the time. -/
def Timer.make (world : World F) (Class : Text) (n : ℕ) (line : F × Effect) : Timer F where
  id := n
  Class := Class
  endTime := PythonFloat.add (world.time n) (PythonFloat.div line.1 (ofInt 1000))
  effect := line.2

/-- A new timer, appended to `gTimers`. -/
def Machine.appendTimer (world : World F) (Class : Text) (m : Machine F) (line : F × Effect) :
    Machine F :=
  let timer := Timer.make world Class m.asked line
  { m with
    gTimers := m.gTimers.modify () (· ++ [timer])
    gTimers_bound := by
      rw [Bindings.keys_modify]
      exact m.gTimers_bound
    asked := m.asked + 1
    log := m.log ++ [.timer timer] }

/-- `addTimer`. -/
def addTimer (world : World F) (Class timer : Text) : Node F Unit :=
  Raising.readThen readTimer (Machine.appendTimer world Class) timer

/-- `AddTimers`. -/
def addTimers (world : World F) (Class : Text) : Node F Unit := do
  record (.addTimers Class)
  forM (sections (openClassFile world.files Class)) fun (name, data) =>
    if name = "Timers".toList then
      forM (lines data) fun timer =>
        if strip timer = [] then pure () else addTimer world Class timer
    else pure ()

/-- `RemoveTimers`. -/
def removeTimers (Class : Text) : Node F Unit := fun m =>
  .ok ()
    { m with
      gTimers := m.gTimers.rebind (·.filter (·.Class ≠ Class)) ()
      gTimers_bound := by
        rw [Bindings.keys_rebind]
        exact m.gTimers_bound }

end Timers

/-! ## Changing the state -/

section ChangeState

variable [PythonFloat F]

/-- `Add`. -/
def add (world : World F) (Class : Text) : Node F Unit := do
  setup world Class
  addTriggers world Class
  addTimers world Class

/-- `Remove`. -/
def remove (world : World F) (Class : Text) : Node F Unit := do
  tearDown world Class
  removeTriggers Class
  removeTimers Class

/-- The members of a set, in the order in which they are iterated now. -/
def iterate (world : World F) (names : List Text) : Node F (List Text) := do
  return world.order (← ask) names

/-- `ChangeState`. Only a string can be put into the text about the new state. A file that is
missing is the empty text, which is not equal to zero. -/
def changeState (world : World F) (newState : Value F) : Node F Unit := do
  match newState with
  | .str name =>
    if (Value.str (openClassFile world.files name) : Value F).eqInt 0 then pure ()
    else
      record (.changeState name)
      let newClasses := getAllClasses world.files name
      let leaving ← iterate world ((← get).currentClasses.difference newClasses)
      forM leaving (remove world)
      let entering ← iterate world (newClasses.difference (← get).currentClasses)
      forM entering (add world)
      modify fun m => { m with currentClasses := newClasses }
  | _ => throw .typeError

/-- The first argument of an effect, with the data of the message for `?MESSAGE`. -/
def firstArgument (message : Option (Value F)) (arg : Text) : Except Raised (Value F) :=
  if arg = "?MESSAGE".toList then
    match message with
    | some data => .ok data
    | none => .error .attributeError
  else .ok (.str arg)

/-- `Effect.Execute`. The message is missing when a timer has gone off. Actions other than
`transition` and `message` end at a name that is not defined. -/
def Effect.execute (world : World F) (effect : Effect) (message : Option (Value F)) :
    Node F Unit :=
  match effect.arguments with
  | [] => throw .indexError
  | arg :: args =>
    match firstArgument message arg with
    | .error e => throw e
    | .ok first =>
      if effect.etype = "transition".toList then changeState world first
      else if effect.etype = "message".toList then sendMessage world (first :: args.map .str)
      -- The source asks for `selt.Type` here, and nothing has the name `selt`.
      else throw .nameError

/-- Whether `Trigger.Check` executes the effect. -/
def Trigger.holds (imgText : Text) (t : Trigger F) (data : Value F) : Except Raised Bool :=
  if t.mOp = "=".toList then .ok (data.toText imgText == t.mValue.toText imgText)
  else if t.mOp = "<".toList then .ok (data.lt t.mValue)
  else if t.mOp = ">".toList then .ok (t.mValue.lt data)
  else if t.mOp = "~".toList then do
    let (above, below) ← data.spread
    return t.mValue.lt above && below.lt t.mValue
  -- Other operators never hold.
  else .ok (t.mOp == "any".toList)

/-- `Trigger.Check`. -/
def Trigger.check (world : World F) (t : Trigger F) (data : Value F) : Node F Unit := do
  if ← attempt (t.holds world.imgText data) then t.mEffect.execute world (some data)

/-- Whether a timer goes off at the time that is asked for now. -/
def Timer.expired (world : World F) (m : Machine F) (t : Timer F) : Bool :=
  PythonFloat.lt t.endTime (world.time m.asked)

/-- `checkTimer`. -/
def checkTimer (world : World F) (t : Timer F) : Node F Bool := do
  let expired := t.expired world (← get)
  let _ ← ask
  if expired then
    record (.fired t)
    t.effect.execute world none
    return true
  else return false

/-- The timers that have gone off are removed from `gTimers`, those that are still there. -/
def Machine.removeKilled (m : Machine F) (killedTimers : List (Timer F)) : Machine F :=
  { m with
    gTimers := m.gTimers.modify () fun timers =>
      killedTimers.foldl (fun timers t => timers.eraseP (·.id = t.id)) timers
    gTimers_bound := by
      rw [Bindings.keys_modify]
      exact m.gTimers_bound }

end ChangeState

end Guillemot.StateMachine
