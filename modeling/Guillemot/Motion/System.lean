import Guillemot.Library.Steps
import Guillemot.Motion.Controllers

/-!
# The nodes and the topics between them

`HighLevelControl`, the two controllers, and whoever publishes from outside. Each topic keeps the
messages of one publisher in order and delivers them after any time; no message is lost. The loop of
`HighLevelControl` and the callbacks of the nodes run in any order. Readings, `Center_On_Point` and
`Module_Control` come from outside: their messages are data of the events that handle them.

A heading that `HighLevelControl` passes on comes from outside or is an echo of what the heading
controller published for a reading. `Source` keeps the two apart, and the history keeps what
`HighLevelControl` has handled and published. No step reads either.
-/

namespace Guillemot.Motion

/-- The publishers of `High_Level_Motion`. -/
inductive Publisher where
  | operator
  | depthController
  | headingController
deriving DecidableEq, Repr

/-- The yaw of a reading, and the target at that time. -/
structure Reading where
  yaw : ℚ
  target : ℚ
deriving DecidableEq, Repr

/-- Where a heading comes from. -/
inductive Source where
  | external
  | echo (r : Reading)
deriving DecidableEq, Repr

/-- What has happened in `HighLevelControl`. -/
inductive Entry where
  | handled (publisher : Publisher) (msg : HighLevelControl)
  | centered (x y : ℤ)
  | managed (outputs : List Output)
deriving DecidableEq, Repr

/-- The nodes, and the messages on their way. -/
structure System where
  control : Controls
  depth : DepthController
  heading : HeadingController
  /-- From outside to `HighLevelControl`. -/
  fromOperator : List HighLevelControl
  /-- From the depth controller to `HighLevelControl`. -/
  fromDepth : List HighLevelControl
  /-- From the heading controller to `HighLevelControl`. -/
  fromHeading : List (HighLevelControl × Reading)
  /-- From outside to the heading controller, which does not read the messages of the controllers
  (`readForwardStatus_of_ne`). -/
  toHeading : List HighLevelControl
  targetDepths : List ℚ
  targetHeadings : List (ℚ × Source)
  /-- Where `TurnCommand` comes from. -/
  turnSource : Source
  history : List Entry
deriving DecidableEq, Repr

/-- The start. -/
def System.init : System :=
  ⟨.init, .init, .init, [], [], [], [], [], [], .external, []⟩

/-- What can happen. -/
inductive Event where
  /-- A message on `High_Level_Motion` from outside. -/
  | publish (msg : HighLevelControl)
  /-- `commandCallback`, with the next message of a publisher. -/
  | command (publisher : Publisher)
  /-- `CenterOnPointCallback`. -/
  | centerOnPoint (x y : ℤ)
  /-- A round of the main loop of `HighLevelControl`. -/
  | manage
  /-- `mCurrentDepthCallback`, with the times that it reads. -/
  | currentDepth (depth reset now : ℚ)
  /-- `mTargetDepthCallback`. -/
  | targetDepth
  /-- `mHeadingCallback`. -/
  | attitude (yaw : ℚ)
  /-- `mTargetHeadingCallback`. -/
  | targetHeading
  /-- `mReadForwardStatus`. -/
  | forwardStatus
  /-- `mEnabledCallback` of the depth controller. -/
  | enableDepth (module : Module) (state : Bool)
  /-- `mEnabledCallback` of the heading controller. -/
  | enableHeading (module : Module) (state : Bool)
deriving DecidableEq, Repr

/-- `HighLevelControl` handles a message. -/
def System.handle (s : System) (publisher : Publisher) (msg : HighLevelControl) (source : Source) :
    System :=
  { s with
    control := s.control.commandCallback msg
    turnSource := if msg.direction = .turn ∧ msg.motionType = .command then source else s.turnSource
    history := s.history ++ [.handled publisher msg] }

/-- `HighLevelControl` handles a point to center on. -/
def System.center (s : System) (x y : ℤ) : System :=
  { s with
    control := s.control.centerOnPointCallback x y
    turnSource := .external
    history := s.history ++ [.centered x y] }

/-- The main loop of `HighLevelControl` does a round. -/
def System.manage (s : System) : System :=
  let round := s.control.manage
  { s with
    control := round.1
    targetDepths := s.targetDepths ++ round.2.filterMap Output.depth?
    targetHeadings := s.targetHeadings ++ (round.2.filterMap Output.heading?).map (·, s.turnSource)
    history := s.history ++ [.managed round.2] }

/-- The heading controller publishes. -/
def System.headingPublishes (s : System) (r : Reading)
    (result : HeadingController × List HighLevelControl) : System :=
  { s with heading := result.1, fromHeading := s.fromHeading ++ result.2.map (·, r) }

/-- One step; `none` where no message has arrived. -/
def System.step (s : System) : Event → Option System
  | .publish msg =>
    some { s with fromOperator := s.fromOperator ++ [msg], toHeading := s.toHeading ++ [msg] }
  | .command .operator =>
    match s.fromOperator with
    | [] => none
    | msg :: rest => some ({ s with fromOperator := rest }.handle .operator msg .external)
  | .command .depthController =>
    match s.fromDepth with
    | [] => none
    | msg :: rest => some ({ s with fromDepth := rest }.handle .depthController msg .external)
  | .command .headingController =>
    match s.fromHeading with
    | [] => none
    | (msg, r) :: rest =>
      some ({ s with fromHeading := rest }.handle .headingController msg (.echo r))
  | .centerOnPoint x y => some (s.center x y)
  | .manage => some s.manage
  | .currentDepth depth reset now =>
    let result := s.depth.currentDepthCallback depth reset now
    some { s with depth := result.1, fromDepth := s.fromDepth ++ result.2 }
  | .targetDepth =>
    match s.targetDepths with
    | [] => none
    | data :: rest => some { s with
        depth := s.depth.targetDepthCallback data
        targetDepths := rest }
  | .attitude yaw =>
    some (s.headingPublishes ⟨yaw, s.heading.targetYaw⟩ (s.heading.headingCallback yaw))
  | .targetHeading =>
    match s.targetHeadings with
    | [] => none
    | (data, _) :: rest => some { s with
        heading := s.heading.targetHeadingCallback data
        targetHeadings := rest }
  | .forwardStatus =>
    match s.toHeading with
    | [] => none
    | msg :: rest => some ({ s with toHeading := rest }.headingPublishes
        ⟨s.heading.currYaw, s.heading.targetYaw⟩ (s.heading.readForwardStatus msg))
  | .enableDepth module state => some { s with depth := s.depth.enabledCallback module state }
  | .enableHeading module state =>
    some { s with heading := s.heading.enabledCallback module state }

/-- One step of a run. -/
def System.Next (s t : System) : Prop := Steps.Moves System.step (fun _ _ => True) s t

/-! ## What a step can do -/

/-- What the heading controller publishes with a reading. -/
def Reading.Publishes (r : Reading) (msg : HighLevelControl) : Prop :=
  msg.direction = .turn ∧
    (msg.motionType = .manual ∨ msg = setTargetHeading (-yawError r.yaw r.target))

/-- A step that `HighLevelControl` takes no part in: messages arrive elsewhere, and the controllers
publish. -/
structure Quiet (s t : System) : Prop where
  control : t.control = s.control
  turnSource : t.turnSource = s.turnSource
  history : t.history = s.history
  fromDepth : ∀ msg ∈ t.fromDepth,
    msg ∈ s.fromDepth ∨ (msg.direction = .depth ∧ msg.motionType = .manual)
  fromHeading : ∀ sent ∈ t.fromHeading, sent ∈ s.fromHeading ∨ sent.2.Publishes sent.1
  targetHeadings : ∀ sent ∈ t.targetHeadings, sent ∈ s.targetHeadings

/-- A message on its way to `HighLevelControl`, with what it is the source of. -/
def System.Carries (s : System) : Publisher → HighLevelControl → Source → Prop
  | .operator, _, source => source = .external
  | .depthController, msg, source => msg ∈ s.fromDepth ∧ source = .external
  | .headingController, msg, source => ∃ r, (msg, r) ∈ s.fromHeading ∧ source = .echo r

/-- What the heading controller publishes comes behind the messages on their way. -/
theorem quiet_headingPublishes {s u : System} (hquiet : Quiet s u) {r : Reading}
    {result : HeadingController × List HighLevelControl}
    (hresult : ∀ msg ∈ result.2, r.Publishes msg) : Quiet s (u.headingPublishes r result) where
  control := hquiet.control
  turnSource := hquiet.turnSource
  history := hquiet.history
  fromDepth := hquiet.fromDepth
  fromHeading sent hsent := by
    rcases List.mem_append.mp hsent with hsent | hsent
    · exact hquiet.fromHeading sent hsent
    · obtain ⟨msg, hmsg, rfl⟩ := List.mem_map.mp hsent
      exact .inr (hresult msg hmsg)
  targetHeadings := hquiet.targetHeadings

/-- The steps: `HighLevelControl` handles a message that was on its way or a point to center on, or
does a round, or takes no part. -/
theorem step_cases {s t : System} {e : Event} (hstep : s.step e = some t) :
    Quiet s t ∨
      (∃ u publisher msg source, Quiet s u ∧ s.Carries publisher msg source ∧
        t = u.handle publisher msg source) ∨
      (∃ x y, t = s.center x y) ∨ t = s.manage := by
  cases e with
  | publish msg =>
    obtain rfl := Option.some.inj hstep
    exact .inl ⟨rfl, rfl, rfl, fun _ => .inl, fun _ => .inl, fun _ => id⟩
  | command publisher =>
    refine .inr (.inl ?_)
    cases publisher with
    | operator =>
      simp only [System.step] at hstep
      split at hstep
      · cases hstep
      · next msg rest _ =>
        obtain rfl := Option.some.inj hstep
        exact ⟨{ s with fromOperator := rest }, .operator, msg, .external,
          ⟨rfl, rfl, rfl, fun _ => .inl, fun _ => .inl, fun _ => id⟩, rfl, rfl⟩
    | depthController =>
      simp only [System.step] at hstep
      split at hstep
      · cases hstep
      · next msg rest hqueue =>
        obtain rfl := Option.some.inj hstep
        have hrest : ∀ m ∈ rest, m ∈ s.fromDepth := by simp_all
        refine ⟨{ s with fromDepth := rest }, .depthController, msg, .external,
          ⟨rfl, rfl, rfl, fun m hm => .inl (hrest m hm), fun _ => .inl, fun _ => id⟩, ?_, rfl⟩
        exact ⟨by simp [hqueue], rfl⟩
    | headingController =>
      simp only [System.step] at hstep
      split at hstep
      · cases hstep
      · next msg r rest hqueue =>
        obtain rfl := Option.some.inj hstep
        have hrest : ∀ m ∈ rest, m ∈ s.fromHeading := by simp_all
        refine ⟨{ s with fromHeading := rest }, .headingController, msg, .echo r,
          ⟨rfl, rfl, rfl, fun _ => .inl, fun m hm => .inl (hrest m hm), fun _ => id⟩, ?_, rfl⟩
        exact ⟨r, by simp [hqueue], rfl⟩
  | centerOnPoint x y => exact .inr (.inr (.inl ⟨x, y, (Option.some.inj hstep).symm⟩))
  | manage => exact .inr (.inr (.inr (Option.some.inj hstep).symm))
  | currentDepth depth reset now =>
    obtain rfl := Option.some.inj hstep
    refine .inl ⟨rfl, rfl, rfl, fun msg hmsg => ?_, fun _ => .inl, fun _ => id⟩
    exact (List.mem_append.mp hmsg).imp_right currentDepthCallback_publishes
  | targetDepth =>
    simp only [System.step] at hstep
    split at hstep
    · cases hstep
    · obtain rfl := Option.some.inj hstep
      exact .inl ⟨rfl, rfl, rfl, fun _ => .inl, fun _ => .inl, fun _ => id⟩
  | attitude yaw =>
    obtain rfl := Option.some.inj hstep
    exact .inl (quiet_headingPublishes ⟨rfl, rfl, rfl, fun _ => .inl, fun _ => .inl, fun _ => id⟩
      fun msg hmsg => headingCallback_publishes hmsg)
  | targetHeading =>
    simp only [System.step] at hstep
    split at hstep
    · cases hstep
    · next hqueue =>
      obtain rfl := Option.some.inj hstep
      refine .inl ⟨rfl, rfl, rfl, fun _ => .inl, fun _ => .inl, fun sent hsent => ?_⟩
      rw [hqueue]
      exact List.mem_cons_of_mem _ hsent
  | forwardStatus =>
    simp only [System.step] at hstep
    split at hstep
    · cases hstep
    · next rest _ =>
      obtain rfl := Option.some.inj hstep
      have hpopped : Quiet s { s with toHeading := rest } :=
        ⟨rfl, rfl, rfl, fun _ => .inl, fun _ => .inl, fun _ => id⟩
      refine .inl (quiet_headingPublishes hpopped fun msg hmsg => ?_)
      obtain rfl := readForwardStatus_publishes hmsg
      exact ⟨rfl, .inl rfl⟩
  | enableDepth module state =>
    obtain rfl := Option.some.inj hstep
    exact .inl ⟨rfl, rfl, rfl, fun _ => .inl, fun _ => .inl, fun _ => id⟩
  | enableHeading module state =>
    obtain rfl := Option.some.inj hstep
    exact .inl ⟨rfl, rfl, rfl, fun _ => .inl, fun _ => .inl, fun _ => id⟩

end Guillemot.Motion
