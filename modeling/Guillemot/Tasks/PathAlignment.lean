import Guillemot.Library.Log
import Guillemot.Library.Streak
import Guillemot.Tasks.PathSelection

/-!
# When the task succeeds

The task counts the calls of `align_to_path` without an interruption in which it had nothing to do:
first without regard to the rotation, until `can_turn` is set, and then with it. `Ledger` says what
the counter and the flag mean for the calls since the task was enabled. It is kept as long as a
single path is selected; once a pair was, `paths` stays too long until the task is enabled again,
and all later calls raise an error.
-/

namespace Guillemot.Tasks.PathTask

/-! ## The calls of a log -/

/-- The calls of `align_to_path` in a part of the log. -/
def calls (log : List Entry) : List Selected :=
  log.filterMap fun
    | .aligning path => some path
    | _ => none

/-- The path of a call is within `TH_X` and `TH_Y`. -/
def Centered : Selected → Prop
  | .path path => |path.center_x| ≤ TH_X ∧ |path.center_y| ≤ TH_Y
  | .best _ _ => False

/-- The path of a call is within `TH_X`, `TH_Y` and `TH_ROT`. -/
def Aligned : Selected → Prop
  | .path path => |path.center_x| ≤ TH_X ∧ |path.center_y| ≤ TH_Y ∧ |path.rotation| ≤ TH_ROT
  | .best _ _ => False

/-- What is published at the end of the task. -/
def success : Published := .completion "PathTask Success"

/-- A part of the log since the task was enabled for the last time. -/
def SinceEnabled (log since : List Entry) : Prop :=
  ∃ before, log = before ++ .enabled :: since ∧ .enabled ∉ since

/-- The calls end with two streaks, one of centered and a later one of aligned paths. -/
def TwoAlignments (goal : ℕ) (cs : List Selected) : Prop :=
  ∃ earlier later, cs = earlier ++ later ∧ Streak Centered SUCCESS_GOAL earlier ∧
    Streak Aligned goal later

/-- What the counter and the flag mean for the calls. -/
def State.Ledger (s : State) (cs : List Selected) : Prop :=
  if s.can_turn then TwoAlignments s.success_counter cs
  else Streak Centered s.success_counter cs

/-- While the task is enabled: more than one path is in the list, or the counter is right about the
calls since then. -/
def Inv (s : State) (log : List Entry) : Prop :=
  s.enabled = true →
    ∃ since, SinceEnabled log since ∧ (2 ≤ s.paths.length ∨ s.Ledger (calls since))

/-- What the log must show before a success. -/
def Earned (log : List Entry) : Prop :=
  ∃ since, SinceEnabled log since ∧ TwoAlignments SUCCESS_GOAL (calls since)

variable {s : State} {log es : List Entry} {path : ImgRecObject} {now : ℚ}

/-! ## Parts of the log -/

/-- What happens without the task being enabled comes behind. -/
theorem SinceEnabled.append {since : List Entry} (h : SinceEnabled log since)
    (hes : .enabled ∉ es) : SinceEnabled (log ++ es) (since ++ es) := by
  obtain ⟨before, rfl, hsince⟩ := h
  refine ⟨before, by simp, fun hmem => ?_⟩
  exact (List.mem_append.mp hmem).elim hsince hes

/-- A call that is not aligned begins the second streak anew. -/
theorem TwoAlignments.restart {n : ℕ} {cs : List Selected} (h : TwoAlignments n cs)
    (c : Selected) : TwoAlignments 0 (cs ++ [c]) := by
  obtain ⟨earlier, later, rfl, hearlier, -⟩ := h
  exact ⟨earlier, later ++ [c], List.append_assoc _ _ _, hearlier, .zero _ _⟩

/-- What an event keeps, and what it may add to the log. -/
def Keeps (log : List Entry) (r : State × List Entry) : Prop :=
  Inv r.1 (log ++ r.2) ∧
    ∀ earlier later, r.2 = earlier ++ .published success :: later → Earned (log ++ earlier)

theorem SinceEnabled.aligning {since : List Entry} (h : SinceEnabled log since)
    (selected : Selected) (os : List Published) :
    SinceEnabled (log ++ .aligning selected :: os.map .published)
      (since ++ .aligning selected :: os.map .published) :=
  h.append (by simp)

end Guillemot.Tasks.PathTask
