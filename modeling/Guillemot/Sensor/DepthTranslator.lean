import Mathlib.Algebra.Order.Field.Rat
import Mathlib.Data.List.Basic
import Mathlib.Data.List.Induction
import Mathlib.Tactic.Common
import Mathlib.Tactic.NormNum

/-!
# The calibration of the depth

`Depth.cpp` turns the tick counts of the pressure sensor into depths. A calibration to depth 0 sets
the offset to the last tick count, and one to another depth the factor, with a division by the
difference of the last tick count and the offset. `sound_iff` says which sequences of messages
calibrate soundly: those in which no calibration to another depth finds this difference zero.

A `float` is a rational number, without rounding. A quotient with divisor 0 is 0 here.
-/

namespace Guillemot.Sensor

/-- The variables of the node. -/
structure DepthTranslator where
  offset : ℚ
  scalingFactor : ℚ
  currentDepthRaw : ℚ
  lastTicks : ℚ
deriving DecidableEq, Repr

namespace DepthTranslator

/-- The messages of the node, on `Pressure_Data` and on `Calibrate_Depth`. -/
inductive Message where
  | pressureData (data : ℚ)
  | calibrateDepth (data : ℚ)
deriving DecidableEq, Repr

/-- The initial values. -/
def init : DepthTranslator := ⟨101, 277 / 1000, 166 / 10, 107⟩

/-- `tickMeasureCallback`, with the depth that it publishes. -/
def tickMeasureCallback (t : DepthTranslator) (data : ℚ) : DepthTranslator × ℚ :=
  let t := { t with lastTicks := data }
  let t := { t with currentDepthRaw := (t.lastTicks - t.offset) * t.scalingFactor }
  (t, t.currentDepthRaw)

/-- `calibrationCallback`, with the numbers that it divides by. -/
def calibrationCallback (t : DepthTranslator) (data : ℚ) : DepthTranslator × List ℚ :=
  if data = 0 then ({ t with offset := t.lastTicks }, [])
  else ({ t with scalingFactor := data / (t.lastTicks - t.offset) }, [t.lastTicks - t.offset])

/-- The callback of a message. -/
def step (t : DepthTranslator) : Message → DepthTranslator
  | .pressureData data => (t.tickMeasureCallback data).1
  | .calibrateDepth data => (t.calibrationCallback data).1

/-- The callbacks of some messages, one after the other. -/
def steps (t : DepthTranslator) (messages : List Message) : DepthTranslator := messages.foldl step t

/-- A calibration to the depth `d` is sound: it does not divide by zero, and whatever the sensor
measures behind it, the tick count that it found is published as `d`. -/
structure Calibrates (t : DepthTranslator) (d : ℚ) : Prop where
  divisors : ∀ divisor ∈ (t.calibrationCallback d).2, divisor ≠ 0
  exact : ∀ readings : List ℚ, (tickMeasureCallback
    ((t.step (.calibrateDepth d)).steps (readings.map .pressureData)) t.lastTicks).2 = d

/-- All calibrations of a run are. -/
def Sound (messages : List Message) : Prop :=
  ∀ before d later, messages = before ++ .calibrateDepth d :: later →
    (init.steps before).Calibrates d

variable {t : DepthTranslator} {d : ℚ}

/-- The sensor does not change the calibration. -/
theorem steps_pressureData (t : DepthTranslator) (readings : List ℚ) :
    (t.steps (readings.map .pressureData)).offset = t.offset ∧
      (t.steps (readings.map .pressureData)).scalingFactor = t.scalingFactor := by
  induction readings generalizing t with
  | nil => exact ⟨rfl, rfl⟩
  | cons data readings ih =>
    obtain ⟨hoffset, hfactor⟩ := ih (t.step (.pressureData data))
    exact ⟨hoffset, hfactor⟩

/-- What is published for a tick count, whatever was measured before. -/
theorem published_eq (t : DepthTranslator) (readings : List ℚ) (data : ℚ) :
    ((t.steps (readings.map .pressureData)).tickMeasureCallback data).2 =
      (data - t.offset) * t.scalingFactor := by
  obtain ⟨hoffset, hfactor⟩ := steps_pressureData t readings
  rw [← hoffset, ← hfactor]
  rfl

/-- A calibration is sound exactly when it is one to depth 0, or at another tick count than the last
one to depth 0. -/
theorem calibrates_iff : t.Calibrates d ↔ (d ≠ 0 → t.lastTicks ≠ t.offset) := by
  constructor
  · intro h hd hticks
    have hdivisor := h.divisors
    rw [calibrationCallback, if_neg hd] at hdivisor
    exact hdivisor _ (List.mem_singleton_self _) (sub_eq_zero.mpr hticks)
  · intro h
    by_cases hd : d = 0
    · subst hd
      refine ⟨by simp [calibrationCallback], fun readings => ?_⟩
      rw [published_eq, step, calibrationCallback, if_pos rfl, sub_self, zero_mul]
    · have hticks : t.lastTicks - t.offset ≠ 0 := sub_ne_zero.mpr (h hd)
      constructor
      · intro divisor hdivisor
        rw [calibrationCallback, if_neg hd] at hdivisor
        rw [List.mem_singleton.mp hdivisor]
        exact hticks
      · intro readings
        rw [published_eq, step, calibrationCallback, if_neg hd]
        exact mul_div_cancel₀ d hticks

/-! ## The tick count and the offset -/

/-- The tick counts of some messages. -/
def tickCounts (messages : List Message) : List ℚ :=
  messages.filterMap fun
    | .pressureData data => some data
    | .calibrateDepth _ => none

/-- The last tick count is that of the last message of the sensor, or the initial value. -/
theorem lastTicks_steps (messages : List Message) :
    (init.steps messages).lastTicks = (tickCounts messages).getLast?.getD 107 := by
  induction messages using List.reverseRecOn with
  | nil => rfl
  | append_singleton messages message ih =>
    have hlast : init.steps (messages ++ [message]) = (init.steps messages).step message :=
      List.foldl_concat ..
    rw [hlast, tickCounts, List.filterMap_append]
    cases message with
    | pressureData data =>
      change data = _
      simp
    | calibrateDepth d =>
      have hkept : ((init.steps messages).step (.calibrateDepth d)).lastTicks =
          (init.steps messages).lastTicks := by
        rw [step, calibrationCallback]
        split_ifs <;> rfl
      rw [hkept, ih]
      simp [tickCounts]

/-- Only calibrations to depth 0 change the offset. -/
theorem offset_steps_of_notMem (t : DepthTranslator) {later : List Message}
    (h : .calibrateDepth 0 ∉ later) : (t.steps later).offset = t.offset := by
  induction later generalizing t with
  | nil => rfl
  | cons message later ih =>
    obtain ⟨hmessage, hlater⟩ := List.ne_and_not_mem_of_not_mem_cons h
    have hkept : (t.step message).offset = t.offset := by
      cases message with
      | pressureData data => rfl
      | calibrateDepth d =>
        have hd : d ≠ 0 := fun hd => hmessage (congrArg _ hd.symm)
        rw [step, calibrationCallback, if_neg hd]
    exact (ih (t.step message) hlater).trans hkept

/-- The offset is the tick count that the last calibration to depth 0 found. -/
theorem offset_steps (before : List Message) {later : List Message}
    (h : .calibrateDepth 0 ∉ later) :
    (init.steps (before ++ .calibrateDepth 0 :: later)).offset = (init.steps before).lastTicks := by
  have hsplit : init.steps (before ++ .calibrateDepth 0 :: later) =
      ((init.steps before).step (.calibrateDepth 0)).steps later := List.foldl_append
  rw [hsplit, offset_steps_of_notMem _ h, step, calibrationCallback, if_pos rfl]

/-! ## The law of a run -/

/-- A run is sound exactly when each calibration to another depth than 0 finds a tick count that is
not the offset. -/
theorem sound_iff (messages : List Message) :
    Sound messages ↔
      ∀ before d later, messages = before ++ .calibrateDepth d :: later → d ≠ 0 →
        (init.steps before).lastTicks ≠ (init.steps before).offset := by
  unfold Sound
  simp only [calibrates_iff]

/-- Two calibrations at the same tick count. -/
theorem same_ticks_divided : ¬(∀ messages, Sound messages) := by
  intro h
  have hsecond := (h [.calibrateDepth 0, .calibrateDepth 5] [.calibrateDepth 0] 5 [] rfl).divisors
  exact hsecond 0 (by decide +kernel) rfl

end DepthTranslator

end Guillemot.Sensor
