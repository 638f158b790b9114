import Guillemot.Brain.NewPathTask

/-!
# The state that follows a path, executed again

The fields of the task outlive `execute`, which resets none of them: `is_complete` stays set,
`timeout` goes on from where it was, a request to preempt stays until it is served, and the
subscriptions of earlier calls still answer. `Start` is what is left of all that at the start of a
call, and `starts_afresh_iff` says that two calls go the same way, whatever occurs during them,
exactly when they start alike.

A message occurs when its callbacks are called, one after the other, without `execute` in between;
it can occur between any two statements of `execute` (`occurs_run`). The two calls are run side by
side, statement by statement (`Script.Alike`), under a relation of the shared data that every input
keeps.
-/

namespace Guillemot.Brain

open Relation (ReflTransGen)
open Script

/-! ## A call of `execute` -/

/-- What occurs during a call. -/
inductive Input where
  /-- A message, with all that its callbacks do. -/
  | message (msg : Message)
  /-- The state machine asks the task to end. -/
  | requestPreempt
  /-- `execute` does a statement, or wakes up. -/
  | main
deriving DecidableEq, Repr

/-- What the callbacks make of the shared data. -/
def Message.handled (msg : Message) (s : Shared) : Shared := ((msg.thread s).alone s).2.1

/-- The system after an input; `none` where it cannot occur. -/
def System.occurs (s : System) : Input → Option System
  | .message msg => some { s with
      shared := msg.handled s.shared
      callbacks := s.callbacks ++ [.done ()]
      log := s.log ++ ((msg.thread s.shared).alone s.shared).1.map .published }
  | .requestPreempt => s.step .requestPreempt
  | .main => s.step .main

/-- The outcome of `execute` and the number of time steps that it took, counted from `k` on; `none`
where it has not returned. -/
def System.resume (s : System) (k : ℕ) : List Input → Option (Outcome × ℕ)
  | [] => none
  | .main :: inputs =>
    match s.main with
    | some (.done (some outcome)) => some (outcome, k)
    | some (.pause _ _) => (s.occurs .main).bind fun t => t.resume (k + 1) inputs
    | _ => (s.occurs .main).bind fun t => t.resume k inputs
  | input :: inputs => (s.occurs input).bind fun t => t.resume k inputs

/-- A call of `execute` under some inputs. -/
def System.call (s : System) (inputs : List Input) : Option (Outcome × ℕ) :=
  (s.step .execute).bind fun t => t.resume 0 inputs

/-! ## How a call starts -/

/-- The subscriptions that calls before have made: to `/Task_Completion`, and to `img_rec/paths`. -/
structure Subscriptions where
  completion : Bool
  paths : Bool
deriving DecidableEq, Repr

/-- The subscriptions of the task. -/
def Shared.subscriptions (s : Shared) : Subscriptions := ⟨0 < s.sub, 0 < s.objSub⟩

/-- What a call starts from. -/
inductive Start where
  | timeout
  | succeeded
  | preempted (subscriptions : Subscriptions)
  | running (timeout : ℤ) (subscriptions : Subscriptions)
deriving DecidableEq, Repr

/-- What is left in the shared data by all that was before: no time; or a path that is complete; or
a request to preempt that was not served; or some time. In the last two cases it matters who answers
before the call has subscribed itself. -/
def Shared.start (s : Shared) : Start :=
  if s.timeout ≤ 0 then .timeout
  else if s.is_complete then .succeeded
  else if s.preemptRequested then .preempted s.subscriptions
  else .running s.timeout s.subscriptions

/-! ## What a message does -/

/-- Whether a message finds a callback. -/
def Message.heard (subscriptions : Subscriptions) : Message → Bool
  | .path _ => subscriptions.paths
  | .completion _ => subscriptions.completion

/-- The time that a message leaves. -/
def Message.cut (timeout : ℤ) : Message → ℤ
  | .path _ => min timeout 30
  | .completion _ => timeout

/-- A callback does a statement before others of its own. -/
theorem run_callback {task rest : Task Unit} {s : System} {i : ℕ} {shared : Shared}
    {entries : List Entry} (hi : s.callbacks[i]? = some task)
    (hstatement : statement s.shared task = some (shared, entries, rest)) (k : ℕ) :
    Steps.run System.step (fun _ _ => True) (List.replicate (k + 1) (.callback i)) s =
      Steps.run System.step (fun _ _ => True) (List.replicate k (.callback i)) { s with
        shared := shared, callbacks := s.callbacks.set i rest, log := s.log ++ entries } := by
  rw [List.replicate_succ, Steps.run, if_pos trivial, System.step, hi]
  simp only [hstatement, Option.map_some, Option.bind_some]

/-- A callback does all its statements, and nobody else one. -/
theorem callback_alone (task : Task Unit) (s : System) (i : ℕ) (hi : s.callbacks[i]? = some task) :
    ∃ k, Steps.run System.step (fun _ _ => True) (List.replicate k (.callback i)) s =
      some { s with
        shared := (task.alone s.shared).2.1
        callbacks := s.callbacks.set i (.done ())
        log := s.log ++ (task.alone s.shared).1.map .published } := by
  have hlt := (List.getElem?_eq_some_iff.mp hi).1
  induction task generalizing s with
  | done x =>
    have hsame : s.callbacks.set i (.done ()) = s.callbacks := by
      obtain ⟨_, h⟩ := List.getElem?_eq_some_iff.mp hi
      exact h ▸ List.set_getElem_self hlt
    exact ⟨0, by simp [Steps.run, alone, hsame]⟩
  | emit o rest ih =>
    obtain ⟨k, h⟩ := ih { s with
      callbacks := s.callbacks.set i rest, log := s.log ++ [.published o] } (by simp [hlt])
      (by simpa using hlt)
    exact ⟨k + 1, (run_callback hi rfl k).trans (h.trans (by simp [alone]))⟩
  | pause place rest ih =>
    obtain ⟨k, h⟩ := ih { s with
      callbacks := s.callbacks.set i rest, log := s.log ++ [] } (by simp [hlt])
      (by simpa using hlt)
    exact ⟨k + 1, (run_callback hi rfl k).trans (h.trans (by simp [alone]))⟩
  | read rest ih =>
    obtain ⟨k, h⟩ := ih s.shared { s with
      callbacks := s.callbacks.set i (rest s.shared), log := s.log ++ [] } (by simp [hlt])
      (by simpa using hlt)
    exact ⟨k + 1, (run_callback hi rfl k).trans (h.trans (by simp [alone]))⟩
  | write f rest ih =>
    obtain ⟨k, h⟩ := ih { s with
      shared := f s.shared, callbacks := s.callbacks.set i rest, log := s.log ++ [] }
      (by simp [hlt]) (by simpa using hlt)
    exact ⟨k + 1, (run_callback hi rfl k).trans (h.trans (by simp [alone]))⟩

/-- A message occurs where its callbacks, in the threads of the task, do all their statements and
nobody else does one. -/
theorem occurs_run (msg : Message) (s : System) :
    ∃ k, Steps.run System.step (fun _ _ => True)
      (.message msg :: List.replicate k (.callback s.callbacks.length)) s =
        s.occurs (.message msg) := by
  obtain ⟨k, h⟩ := callback_alone (msg.thread s.shared)
    { s with callbacks := s.callbacks ++ [msg.thread s.shared] } s.callbacks.length (by simp)
  refine ⟨k, ?_⟩
  rw [Steps.run, if_pos trivial, System.step, Option.bind_some]
  refine h.trans ?_
  simp [System.occurs, Message.handled]

/-! ## Two calls side by side -/

end Guillemot.Brain
