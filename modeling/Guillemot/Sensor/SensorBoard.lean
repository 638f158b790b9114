import Mathlib.Algebra.BigOperators.Fin
import Mathlib.Algebra.Order.BigOperators.Group.Finset
import Mathlib.Algebra.Order.Field.Rat
import Mathlib.Data.Rat.Floor
import Mathlib.Tactic.Linarith

/-!
# The flood sensor of the sensor board

`checkFlooded` and `calibrateFloodSensor` of `SubSensorBoard.ino`. The limit of a pin is the
difference of its calibrated mean and `FLOOD_DIF`, in `unsigned long`, so that it wraps around for a
mean below `FLOOD_DIF`, and every reading is below it. `checkFlooded_law_iff` says for which
calibrations and readings the answer is right.

An `int` of the board has 16 bits and an `unsigned long` 32.
-/

namespace Guillemot.Sensor.SensorBoard

/-- The analog readings, 0 to 1023. -/
abbrev Reading := Fin 1024

/-- `analogRead`. -/
def analogRead (r : Reading) : Int16 := Int16.ofNat r

/-- The conversion from `int` to `unsigned long`. -/
def unsignedLong (x : Int16) : UInt32 := x.toInt32.toUInt32

/-- `FLOOD_DIF`. -/
def FLOOD_DIF : Int16 := 100

/-- `floodCalib1` and `floodCalib2`. -/
structure FloodCalib where
  floodCalib1 : UInt32
  floodCalib2 : UInt32
deriving DecidableEq, Repr

/-- `calibrateFloodSensor`, with the readings of the two pins. -/
def calibrateFloodSensor (floodPin1 floodPin2 : Fin 100 → Reading) : FloodCalib :=
  let t := (List.finRange 100).foldl (fun (t : UInt32 × UInt32) i =>
    (t.1 + unsignedLong (analogRead (floodPin1 i)), t.2 + unsignedLong (analogRead (floodPin2 i))))
    (0, 0)
  ⟨t.1 / 100, t.2 / 100⟩

/-- `checkFlooded`, with the readings of the two pins. -/
def checkFlooded (c : FloodCalib) (floodPin1 floodPin2 : Reading) : UInt8 :=
  let val := analogRead floodPin1
  let val2 := analogRead floodPin2
  if unsignedLong val ≤ c.floodCalib1 - unsignedLong FLOOD_DIF ∨
      unsignedLong val2 ≤ c.floodCalib2 - unsignedLong FLOOD_DIF then 1
  else 0

/-- The mean of the readings of a calibration. -/
def mean (run : Fin 100 → Reading) : ℚ := (∑ i, ((run i : ℕ) : ℚ)) / 100

/-- A reading is at least `FLOOD_DIF` below the mean of a calibration. -/
def Below (run : Fin 100 → Reading) (r : Reading) : Prop := ((r : ℕ) : ℚ) ≤ mean run - 100

/-! ## The arithmetic of the board -/

theorem toNat_unsignedLong (r : Reading) : (unsignedLong (analogRead r)).toNat = r := by
  have hr := r.isLt
  have hint : ((r : ℕ) : ℤ) ≤ Int16.maxValue.toInt := by
    rw [Int16.toInt_maxValue]
    omega
  rw [unsignedLong, analogRead, Int16.toInt32_ofNat' hint, Int32.toUInt32_ofNat',
    UInt32.toNat_ofNat_of_lt' (lt_trans hr (by decide))]

/-- A sum of up to 100 readings does not wrap around. -/
theorem toNat_foldl (readings : List Reading) (hlength : readings.length ≤ 100) :
    (readings.foldl (fun t r => t + unsignedLong (analogRead r)) (0 : UInt32)).toNat =
      (readings.map Fin.val).sum ∧ (readings.map Fin.val).sum ≤ 1023 * readings.length := by
  induction readings using List.reverseRecOn with
  | nil => exact ⟨rfl, le_refl 0⟩
  | append_singleton readings r ih =>
    have hr := r.isLt
    rw [List.length_append, List.length_singleton] at hlength ⊢
    obtain ⟨hsum, hle⟩ := ih (by omega)
    rw [List.foldl_append, List.foldl_cons, List.foldl_nil, UInt32.toNat_add, hsum,
      toNat_unsignedLong, List.map_append, List.sum_append, List.map_singleton, List.sum_singleton]
    omega

/-- What a pin is calibrated to. -/
def calibrated (run : Fin 100 → Reading) : ℕ := (∑ i, (run i : ℕ)) / 100

theorem toNat_calibrated (run : Fin 100 → Reading) :
    (((List.finRange 100).foldl (fun t i => t + unsignedLong (analogRead (run i))) (0 : UInt32)) /
      100).toNat = calibrated run := by
  have hsum := (toNat_foldl ((List.finRange 100).map run) (by simp)).1
  rw [List.foldl_map, List.map_map, ← List.ofFn_eq_map, List.sum_ofFn] at hsum
  rw [UInt32.toNat_div, hsum]
  rfl

/-- The sums of the two pins do not depend on each other. -/
theorem foldl_pair {α β γ : Type*} (f : α → γ → α) (g : β → γ → β) (xs : List γ) (a : α) (b : β) :
    xs.foldl (fun t i => (f t.1 i, g t.2 i)) (a, b) = (xs.foldl f a, xs.foldl g b) := by
  induction xs generalizing a b with
  | nil => rfl
  | cons x xs ih => exact ih _ _

theorem calibrateFloodSensor_toNat (pin1 pin2 : Fin 100 → Reading) :
    (calibrateFloodSensor pin1 pin2).floodCalib1.toNat = calibrated pin1 ∧
      (calibrateFloodSensor pin1 pin2).floodCalib2.toNat = calibrated pin2 := by
  unfold calibrateFloodSensor
  dsimp only
  rw [foldl_pair (fun t i => t + unsignedLong (analogRead (pin1 i)))
    (fun t i => t + unsignedLong (analogRead (pin2 i)))]
  exact ⟨toNat_calibrated pin1, toNat_calibrated pin2⟩

/-- Below `FLOOD_DIF` the limit wraps around, and every reading is below it. -/
theorem le_limit_iff (r : Reading) (calib : UInt32) :
    unsignedLong (analogRead r) ≤ calib - unsignedLong FLOOD_DIF ↔
      calib.toNat < 100 ∨ r + 100 ≤ calib.toNat := by
  have hr := r.isLt
  have hcalib := calib.toNat_lt
  have hdif : (unsignedLong FLOOD_DIF).toNat = 100 := by decide
  rw [UInt32.le_iff_toNat_le, toNat_unsignedLong, UInt32.toNat_sub, hdif]
  omega

/-- The quotient in integers is at least a number when the mean is. -/
theorem le_calibrated_iff (run : Fin 100 → Reading) (n : ℕ) :
    n ≤ calibrated run ↔ (n : ℚ) ≤ mean run := by
  have hsum : mean run = ((∑ i, (run i : ℕ) : ℕ) : ℚ) / 100 := by
    unfold mean
    push_cast
    rfl
  rw [hsum, le_div_iff₀ (by norm_num), calibrated, Nat.le_div_iff_mul_le (by norm_num)]
  exact_mod_cast Iff.rfl

theorem below_iff (run : Fin 100 → Reading) (r : Reading) :
    Below run r ↔ r + 100 ≤ calibrated run := by
  rw [le_calibrated_iff, Below, le_sub_iff_add_le]
  push_cast
  rfl

/-! ## The answer -/

/-- The answer is 1 for a reading below its limit, and for a limit that wraps around. -/
theorem checkFlooded_eq_one_iff (pin1 pin2 : Fin 100 → Reading) (val val2 : Reading) :
    checkFlooded (calibrateFloodSensor pin1 pin2) val val2 = 1 ↔
      (mean pin1 < 100 ∨ Below pin1 val) ∨ mean pin2 < 100 ∨ Below pin2 val2 := by
  obtain ⟨hcalib1, hcalib2⟩ := calibrateFloodSensor_toNat pin1 pin2
  have hone (p : Prop) [Decidable p] : (if p then (1 : UInt8) else 0) = 1 ↔ p := by
    split_ifs with hp
    · exact iff_of_true rfl hp
    · exact iff_of_false (by decide) hp
  have hlow (run : Fin 100 → Reading) : calibrated run < 100 ↔ mean run < 100 := by
    rw [← not_le, ← not_le, le_calibrated_iff]
    rfl
  rw [checkFlooded, hone, le_limit_iff, le_limit_iff, hcalib1, hcalib2, hlow, hlow, below_iff,
    below_iff]

/-- The answer is 1 exactly when some reading is at least `FLOOD_DIF` below its mean, if no mean is
below `FLOOD_DIF`, or if there is such a reading anyway. -/
theorem checkFlooded_law_iff (pin1 pin2 : Fin 100 → Reading) (val val2 : Reading) :
    (checkFlooded (calibrateFloodSensor pin1 pin2) val val2 = 1 ↔
        Below pin1 val ∨ Below pin2 val2) ↔
      (100 ≤ mean pin1 ∧ 100 ≤ mean pin2) ∨ Below pin1 val ∨ Below pin2 val2 := by
  rw [checkFlooded_eq_one_iff, ← not_lt, ← not_lt]
  tauto

/-- No reading is below a mean by more than the mean. -/
theorem not_below_last (run : Fin 100 → Reading) : ¬Below run (Fin.last 1023) := by
  have hsum : ∑ i, (run i : ℕ) ≤ ∑ _i : Fin 100, 1023 :=
    Finset.sum_le_sum fun i _ => Nat.le_of_lt_succ (run i).isLt
  rw [Finset.sum_const, Finset.card_univ, Fintype.card_fin, smul_eq_mul] at hsum
  rw [below_iff, calibrated, Fin.val_last]
  omega

/-- A calibration leads to right answers for all readings exactly when no mean is below
`FLOOD_DIF`. -/
theorem checkFlooded_sound_iff (pin1 pin2 : Fin 100 → Reading) :
    (∀ val val2, checkFlooded (calibrateFloodSensor pin1 pin2) val val2 = 1 ↔
        Below pin1 val ∨ Below pin2 val2) ↔
      100 ≤ mean pin1 ∧ 100 ≤ mean pin2 := by
  constructor
  · intro h
    have hlast := (checkFlooded_eq_one_iff pin1 pin2 _ _).symm.trans
      (h (Fin.last 1023) (Fin.last 1023))
    have hbelow1 := not_below_last pin1
    have hbelow2 := not_below_last pin2
    rw [← not_lt, ← not_lt]
    tauto
  · rintro ⟨hmean1, hmean2⟩ val val2
    rw [← not_lt] at hmean1 hmean2
    rw [checkFlooded_eq_one_iff]
    tauto

/-- Calibrated to 99, the board reports water for the highest readings. -/
theorem low_mean_flooded :
    ¬(∀ (pin1 pin2 : Fin 100 → Reading) (val val2 : Reading),
      checkFlooded (calibrateFloodSensor pin1 pin2) val val2 = 1 ↔
        Below pin1 val ∨ Below pin2 val2) := by
  intro h
  have hanswer : checkFlooded (calibrateFloodSensor (fun _ => 99) fun _ => 99)
      (Fin.last 1023) (Fin.last 1023) = 1 := by decide +kernel
  exact ((h _ _ _ _).mp hanswer).elim (not_below_last _) (not_below_last _)

end Guillemot.Sensor.SensorBoard
