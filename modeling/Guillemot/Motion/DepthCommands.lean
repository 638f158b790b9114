import Guillemot.Library.Log
import Guillemot.Motion.System

/-!
# Depth commands and the speeds of the depth controller

A depth command waits in `DepthCommand` until a round of the main loop hands it to the depth
controller. The controller answers every reading with a speed, on the topic that the command came
on, and `commandCallback` takes a speed for an order to go over to `MANUAL`: a command that waits is
not handed on any more (`depthCommand_handed_on_iff`).

What waits is a function of what `HighLevelControl` has handled (`waitingAfter`), and every round
hands on just that.
-/

namespace Guillemot.Motion

open Relation (ReflTransGen)

/-- The depth command that waits after an entry of the history. -/
def waitingAfter (waiting : Option ℚ) : Entry → Option ℚ
  | .handled _ msg =>
    if msg.direction = .depth then
      match msg.motionType with
      | .command => if msg.value = targetZero then none else some msg.value
      | .manual => none
      | .other => waiting
    else waiting
  | .centered _ y => if (40 - y) / 150 = targetZero then none else some ((40 - y) / 150)
  | .managed _ => none

/-- What an entry of the history can be while a command waits: a round hands it on, and the
controllers publish what they publish. -/
def Entry.Right (waiting : Option ℚ) : Entry → Prop
  | .handled .operator _ => True
  | .handled .depthController msg => msg.direction = .depth ∧ msg.motionType = .manual
  | .handled .headingController msg => msg.direction = .turn
  | .centered _ _ => True
  | .managed outputs => outputs.filterMap Output.depth? = waiting.toList

/-- The history accounts for the command that waits. -/
structure DepthLog (s : System) : Prop where
  fromDepth : ∀ msg ∈ s.fromDepth, msg.direction = .depth ∧ msg.motionType = .manual
  fromHeading : ∀ sent ∈ s.fromHeading, sent.1.direction = .turn
  right : Log.Accounts waitingAfter Entry.Right none s.history
  waiting : s.control.depth.pending = s.history.foldl waitingAfter none

theorem depthLog_init : DepthLog .init :=
  ⟨List.forall_mem_nil _, List.forall_mem_nil _, trivial, rfl⟩

/-- What waits after a message. -/
theorem commandCallback_waiting (c : Controls) (publisher : Publisher) (msg : HighLevelControl) :
    (c.commandCallback msg).depth.pending =
      waitingAfter c.depth.pending (.handled publisher msg) := by
  rw [commandCallback_depth]
  by_cases hdirection : msg.direction = .depth
  · simp only [waitingAfter, if_pos hdirection]
    exact Axis.receive_pending c.depth msg
  · simp only [waitingAfter, if_neg hdirection]

/-- What waits after a point to center on. -/
theorem centerOnPointCallback_waiting (c : Controls) (x y : ℤ) :
    (c.centerOnPointCallback x y).depth.pending =
      waitingAfter c.depth.pending (.centered x y) := by
  unfold Controls.centerOnPointCallback waitingAfter Axis.pending
  simp

theorem DepthLog.of_quiet {s t : System} (h : DepthLog s) (hquiet : Quiet s t) : DepthLog t where
  fromDepth msg hmsg := (hquiet.fromDepth msg hmsg).elim (h.fromDepth msg) id
  fromHeading sent hsent := (hquiet.fromHeading sent hsent).elim (h.fromHeading sent) And.left
  right := hquiet.history ▸ h.right
  waiting := by rw [hquiet.control, hquiet.history, h.waiting]

/-- A message that is on its way is one that its publisher publishes. -/
theorem DepthLog.right_of_carries {s : System} (h : DepthLog s) {publisher : Publisher}
    {msg : HighLevelControl} {source : Source} (hcarries : s.Carries publisher msg source)
    (waiting : Option ℚ) : Entry.Right waiting (.handled publisher msg) := by
  cases publisher with
  | operator => trivial
  | depthController => exact h.fromDepth msg hcarries.1
  | headingController =>
    obtain ⟨r, hsent, -⟩ := hcarries
    exact h.fromHeading _ hsent

/-- A message that is handled. -/
theorem DepthLog.handle {s : System} (h : DepthLog s) {publisher : Publisher}
    {msg : HighLevelControl} (source : Source)
    (hright : ∀ waiting, Entry.Right waiting (.handled publisher msg)) :
    DepthLog (s.handle publisher msg source) where
  fromDepth := h.fromDepth
  fromHeading := h.fromHeading
  right := Log.accounts_snoc.mpr ⟨h.right, hright _⟩
  waiting := by
    rw [show (s.handle publisher msg source).history = s.history ++ [.handled publisher msg]
      from rfl, List.foldl_concat, ← h.waiting]
    exact commandCallback_waiting s.control publisher msg

/-- A point to center on. -/
theorem DepthLog.center {s : System} (h : DepthLog s) (x y : ℤ) : DepthLog (s.center x y) where
  fromDepth := h.fromDepth
  fromHeading := h.fromHeading
  right := Log.accounts_snoc.mpr ⟨h.right, trivial⟩
  waiting := by
    rw [show (s.center x y).history = s.history ++ [.centered x y] from rfl, List.foldl_concat,
      ← h.waiting]
    exact centerOnPointCallback_waiting s.control x y

/-- A round of the main loop. -/
theorem DepthLog.manage {s : System} (h : DepthLog s) : DepthLog s.manage where
  fromDepth := h.fromDepth
  fromHeading := h.fromHeading
  right := by
    obtain ⟨-, -, houtputs, -⟩ := manage_spec s.control
    exact Log.accounts_snoc.mpr ⟨h.right, h.waiting ▸ houtputs⟩
  waiting := by
    obtain ⟨-, hdepth, -, -⟩ := manage_spec s.control
    rw [show s.manage.history = s.history ++ [.managed s.control.manage.2] from rfl,
      List.foldl_concat, show s.manage.control = s.control.manage.1 from rfl, hdepth]
    exact Axis.handOn_pending _

/-- Every step keeps the account. -/
theorem DepthLog.step {s t : System} (h : DepthLog s) {e : Event} (hstep : s.step e = some t) :
    DepthLog t := by
  obtain hquiet | ⟨u, publisher, msg, source, hquiet, hcarries, rfl⟩ | ⟨x, y, rfl⟩ | rfl :=
    step_cases hstep
  · exact h.of_quiet hquiet
  · exact (h.of_quiet hquiet).handle source (h.right_of_carries hcarries)
  · exact h.center x y
  · exact h.manage

/-- The history of every run accounts for the command that waits. -/
theorem depthLog_of_run {s : System} (h : ReflTransGen System.Next .init s) : DepthLog s :=
  Steps.invariant_of_moves (I := DepthLog) (fun _ _ _ hs _ hstep => hs.step hstep) depthLog_init h

/-- An entry behind a depth command and before the next round that is no message for the depth from
outside. -/
def Entry.keepsCommand : Entry → Bool
  | .handled .operator msg => msg.direction ≠ .depth
  | .handled _ _ => true
  | .centered _ _ => false
  | .managed _ => false

/-- Between a command and the next round the command waits, until a speed of the depth controller
is handled. -/
theorem waiting_between {v : ℚ} {mid : List Entry} {waiting : Option ℚ}
    (hkeeps : ∀ e ∈ mid, e.keepsCommand = true)
    (hright : Log.Accounts waitingAfter Entry.Right waiting mid) :
    mid.foldl waitingAfter waiting = some v ↔
      waiting = some v ∧ ∀ msg, .handled .depthController msg ∉ mid := by
  induction mid generalizing waiting with
  | nil => simp
  | cons e mid ih =>
    obtain ⟨he, hmid⟩ := List.forall_mem_cons.mp hkeeps
    obtain ⟨hentry, hrest⟩ := hright
    have ih := ih hmid hrest
    rw [List.foldl_cons, ih]
    rcases e with ⟨publisher, msg⟩ | ⟨x, y⟩ | outputs
    · cases publisher with
      | operator =>
        have hdirection : msg.direction ≠ .depth := of_decide_eq_true he
        simp [waitingAfter, hdirection]
      | depthController =>
        -- the speed takes the command away
        obtain ⟨hdirection, hmanual⟩ : msg.direction = .depth ∧ msg.motionType = .manual := hentry
        have hafter : waitingAfter waiting (.handled .depthController msg) = none := by
          simp [waitingAfter, hdirection, hmanual]
        rw [hafter]
        constructor
        · rintro ⟨⟨⟩, -⟩
        · exact fun hnone => absurd List.mem_cons_self (hnone.2 msg)
      | headingController =>
        have hdirection : msg.direction = .turn := hentry
        simp [waitingAfter, hdirection]
    · cases he
    · cases he

/-- In every run: take a depth command from outside whose value is not the one that stands for no
command, and the next round of the main loop, without another message for the depth from outside in
between. The round publishes the value on `Target_Depth` exactly when `HighLevelControl` handles no
speed of the depth controller in between. -/
theorem depthCommand_handed_on_iff {s : System} (hrun : ReflTransGen System.Next .init s)
    {before mid after : List Entry} {v : ℚ} {outputs : List Output}
    (hhistory : s.history = before ++ .handled .operator ⟨.depth, .command, v⟩ ::
      (mid ++ .managed outputs :: after))
    (hv : v ≠ targetZero) (hmid : ∀ e ∈ mid, e.keepsCommand = true) :
    .targetDepth v ∈ outputs ↔ ∀ msg, .handled .depthController msg ∉ mid := by
  have hlog := (depthLog_of_run hrun).right
  rw [hhistory] at hlog
  obtain ⟨-, hrest⟩ := (Log.accounts_append.mp hlog).2
  have hcommand : waitingAfter (before.foldl waitingAfter none)
      (.handled .operator ⟨.depth, .command, v⟩) = some v := by
    simp [waitingAfter, hv]
  rw [hcommand] at hrest
  have hround : outputs.filterMap Output.depth? = (mid.foldl waitingAfter (some v)).toList :=
    Log.ok_of_accounts hrest
  have hbetween := waiting_between (v := v) hmid (Log.accounts_append.mp hrest).1
  calc
    Output.targetDepth v ∈ outputs ↔ v ∈ outputs.filterMap Output.depth? := by
      simp only [List.mem_filterMap]
      constructor
      · exact fun hmem => ⟨_, hmem, rfl⟩
      · rintro ⟨output, hmem, heq⟩
        cases output with
        | targetDepth input =>
          obtain rfl := Option.some.inj heq
          exact hmem
        | motor msg => cases heq
        | targetHeading input => cases heq
    _ ↔ mid.foldl waitingAfter (some v) = some v := by rw [hround, Option.mem_toList]
    _ ↔ ∀ msg, .handled .depthController msg ∉ mid := by rw [hbetween]; simp

/-- A command is handled, and the main loop does a round. -/
def depthCommand : List Event :=
  [.publish ⟨.depth, .command, 5⟩, .command .operator, .manage]

/-- Between a command and the next round, a speed of the depth controller is handled. -/
def commandThenSpeed : List Event :=
  [.publish ⟨.depth, .command, 5⟩, .currentDepth 0 0 0, .command .operator,
    .command .depthController, .manage]

/-- A command that is followed by a round is handed on. -/
theorem depthCommand_handed_on :
    ∃ s, ReflTransGen System.Next .init s ∧
      ∃ outputs, .managed outputs ∈ s.history ∧ .targetDepth 5 ∈ outputs := by
  have hrun : (Steps.run System.step (fun _ _ => True) depthCommand .init).map
      System.history =
        some ([] ++ .handled .operator ⟨.depth, .command, 5⟩ ::
          ([] ++ .managed [.targetDepth 5] :: [])) := by
    decide +kernel
  obtain ⟨s, hs, hhistory⟩ := Option.map_eq_some_iff.mp hrun
  have hreach := Steps.moves_of_run hs
  refine ⟨s, hreach, [.targetDepth 5], by simp [hhistory], ?_⟩
  exact (depthCommand_handed_on_iff hreach hhistory (by decide +kernel)
    (List.forall_mem_nil _)).mpr fun _ => List.not_mem_nil

/-- A speed of the depth controller takes a command away. -/
theorem depthCommand_lost :
    ¬ ∀ s, ReflTransGen System.Next .init s → ∀ before mid after v outputs,
      s.history = before ++ .handled .operator ⟨.depth, .command, v⟩ ::
        (mid ++ .managed outputs :: after) →
      v ≠ targetZero → (∀ e ∈ mid, e.keepsCommand = true) → .targetDepth v ∈ outputs := by
  intro h
  have hrun : (Steps.run System.step (fun _ _ => True) commandThenSpeed .init).map
      System.history =
        some [.handled .operator ⟨.depth, .command, 5⟩,
          .handled .depthController ⟨.depth, .manual, 0⟩, .managed []] := by
    decide +kernel
  obtain ⟨s, hs, hhistory⟩ := Option.map_eq_some_iff.mp hrun
  have hmem := h s (Steps.moves_of_run hs) [] [.handled .depthController ⟨.depth, .manual, 0⟩] [] 5
    [] hhistory (by decide +kernel) (by simp [Entry.keepsCommand])
  cases hmem

end Guillemot.Motion
