import Mathlib.Algebra.Field.Rat
import Guillemot.StateMachine.TriggerFormat

/-!
# The format of timers

A line of a section `Timers` has the form `After n unit do action arg...`, with one of ten units
(`SaysTimer`). `addTimer` tests the unit in two chains: after the first, which is for milliseconds,
the second has no branch for them and refuses the line. `timer_set_iff` says that a line sets the
timer that it says exactly when its unit is another one.
-/

namespace Guillemot.StateMachine

variable {F : Type} [PythonFloat F]

/-- The units that the format has, with their lengths in milliseconds. -/
def timeUnits : List (Text × ℤ) :=
  [("milliseconds".toList, 1), ("ms".toList, 1), ("seconds".toList, 1000), ("s".toList, 1000),
    ("minutes".toList, 60000), ("m".toList, 60000), ("hours".toList, 3600000),
    ("h".toList, 3600000), ("days".toList, 86400000), ("d".toList, 86400000)]

/-- A line has the documented form, and says that an effect comes after a number of units. -/
structure SaysTimer (line : Text) (n : F) (unit : Text × ℤ) (effect : Effect) : Prop where
  fields : ∃ after number, after.map Char.toLower = "after".toList ∧ ofText number = some n ∧
    words line = after :: number :: unit.1 :: "do".toList :: effect.etype :: effect.arguments
  arguments : effect.arguments ≠ []
  unit : unit ∈ timeUnits

/-- The time, in seconds, a number of units of some milliseconds after another time. -/
def deadline (now n : F) (ms : ℤ) : F :=
  PythonFloat.add now (PythonFloat.div (PythonFloat.mul n (ofInt ms)) (ofInt 1000))

/-- With exact numbers this is the time that the line says. -/
theorem deadline_exact (now n : ℚ) (ms : ℤ) : deadline now n ms = now + n * (ms / 1000) := by
  have hdeadline : deadline now n ms = now + n * ms / ((1000 : ℤ) : ℚ) := rfl
  rw [hdeadline, mul_div_assoc, Int.cast_ofNat]

/-- The line appends one timer: of the class, with the deadline of the units, and with the
effect. -/
def SetsTimer (world : World F) (Class line : Text) (m : Machine F) (n : F) (ms : ℤ)
    (effect : Effect) : Prop :=
  ∃ m' timer, addTimer world Class line m = .ok () m' ∧ m'.timers = m.timers ++ [timer] ∧
    timer.Class = Class ∧ timer.endTime = deadline (world.time m.asked) n ms ∧
      timer.effect = effect

/-- The two names of the milliseconds. -/
def IsMilliseconds (unit : Text) : Prop := unit = "milliseconds".toList ∨ unit = "ms".toList

instance (unit : Text) : Decidable (IsMilliseconds unit) := inferInstanceAs (Decidable (_ ∨ _))

/-- The second chain knows every unit but the milliseconds. -/
theorem inMilliseconds_of_mem {number : Text} {n : F} (hnumber : ofText number = some n)
    {unit : Text × ℤ} (hunit : unit ∈ timeUnits) :
    inMilliseconds number unit.1 =
      .ok (if IsMilliseconds unit.1 then none else some (PythonFloat.mul n (ofInt unit.2))) := by
  simp only [timeUnits, List.mem_cons, List.not_mem_nil, or_false] at hunit
  rcases hunit with rfl | rfl | rfl | rfl | rfl | rfl | rfl | rfl | rfl | rfl <;>
    simp [inMilliseconds, IsMilliseconds, hnumber]

/-- What is read from a line of the documented form. -/
theorem readTimer_of_says {line : Text} {n : F} {unit : Text × ℤ} {effect : Effect}
    (h : SaysTimer line n unit effect) :
    readTimer line =
      .ok (if IsMilliseconds unit.1 then none
        else some (PythonFloat.mul n (ofInt unit.2), effect)) := by
  obtain ⟨after, number, hafter, hnumber, hwords⟩ := h.fields
  obtain ⟨arg, args, hargs⟩ := List.exists_cons_of_ne_nil h.arguments
  have hline : strip line ≠ [] := fun hblank => by
    rw [words_of_strip hblank] at hwords
    cases hwords
  rw [hargs] at hwords
  have hchain : (inMilliseconds number unit.1 : Except Raised (Option F)) = _ :=
    inMilliseconds_of_mem hnumber h.unit
  -- The number is read by the first chain, too, so that nothing is raised there.
  have hfirst : (ofText number : Option F).isNone = false := by rw [hnumber]; rfl
  simp only [readTimer, if_neg hline, hwords, hafter, ne_eq, not_true, or_self, if_false, hfirst,
    Bool.false_eq_true, ite_self, hchain]
  rw [← hargs]
  split_ifs
  · rfl
  · rfl

/-- A line of the documented form sets the timer that it says exactly when its unit is not the
millisecond. -/
theorem timer_set_iff (world : World F) (Class : Text) (m : Machine F) {line : Text} {n : F}
    {unit : Text × ℤ} {effect : Effect} (h : SaysTimer line n unit effect) :
    SetsTimer world Class line m n unit.2 effect ↔ ¬ IsMilliseconds unit.1 := by
  have hread := readTimer_of_says h
  have hrun : addTimer world Class line m =
      .ok () (if IsMilliseconds unit.1 then m
        else m.appendTimer world Class (PythonFloat.mul n (ofInt unit.2), effect)) := by
    rw [addTimer, Raising.readThen, hread]
    split_ifs
    · rfl
    · rfl
  unfold SetsTimer
  rw [hrun]
  split_ifs with hms
  · refine iff_of_false ?_ (not_not_intro hms)
    rintro ⟨m', timer, ⟨⟩, htimers, -⟩
    exact List.cons_ne_nil timer [] (List.append_right_eq_self.mp htimers.symm)
  · let timer := Timer.make world Class m.asked (PythonFloat.mul n (ofInt unit.2), effect)
    refine iff_of_true ⟨_, timer, rfl, ?_, rfl, rfl, rfl⟩ hms
    exact (foldl_appendTimer world Class [_] m).2.2.1

/-- The timer of a line, for the transition to a class. -/
def toSurface : Effect := ⟨"transition".toList, ["Surface".toList]⟩

theorem says_seconds : SaysTimer "After 5 s do transition Surface".toList (5 : ℚ)
    ("s".toList, 1000) toSurface :=
  ⟨⟨"After".toList, "5".toList, by decide, by decide, by decide⟩, by decide, by decide⟩

theorem says_milliseconds : SaysTimer "After 500 ms do transition Surface".toList (500 : ℚ)
    ("ms".toList, 1) toSurface :=
  ⟨⟨"After".toList, "500".toList, by decide, by decide, by decide⟩, by decide, by decide⟩

/-- A timer of five seconds is set. -/
theorem seconds_set : SetsTimer (World.reliable []) "Find".toList
    "After 5 s do transition Surface".toList .initial 5 1000 toSurface :=
  (timer_set_iff (World.reliable []) "Find".toList .initial says_seconds).mpr (by decide)

/-- A timer of five hundred milliseconds is not, although its line has the documented form. -/
theorem milliseconds_lost :
    SaysTimer "After 500 ms do transition Surface".toList (500 : ℚ) ("ms".toList, 1) toSurface ∧
      ¬ SetsTimer (World.reliable []) "Find".toList "After 500 ms do transition Surface".toList
        .initial 500 1 toSurface := by
  refine ⟨says_milliseconds, ?_⟩
  rintro ⟨m', timer, hrun, htimers, -⟩
  have hread : (readTimer "After 500 ms do transition Surface".toList :
      Except Raised (Option (ℚ × Effect))) = .ok none := by
    decide +kernel
  rw [addTimer, Raising.readThen, hread] at hrun
  cases hrun
  exact List.cons_ne_nil timer [] (List.append_right_eq_self.mp htimers.symm)

end Guillemot.StateMachine
