import Guillemot.Attitude.Covariance
import Mathlib.Analysis.Quaternion
import Mathlib.Analysis.SpecialFunctions.Complex.Arg
import Mathlib.Analysis.SpecialFunctions.Trigonometric.Inverse

/-!
# The attitude quaternion is a unit

`run` of `SubAttitudeResolver`: the averages of the start-up, and the loop, which updates the filter
with the accelerometer in every 20th iteration and propagates it in every one. A call is recorded
with the numbers that it divides by and the quaternion that it leaves.

Both functions multiply the attitude by a quaternion and divide the product by its length. In
`kalmanPropagate` the factor is a unit, and in `kalmanUpdate` its real part is one, so that the
product is not shorter than the attitude (`turnedQuat_eq_mul`, `updateQuat_eq_mul`). What is left
are the vectors that `kalmanUpdate` divides by their lengths: the expected acceleration, which is a
unit vector after the first update, and the reading. Nothing keeps either from being zero;
`unit_quaternion_iff` says that this is all that can go wrong.
-/

namespace Guillemot.Attitude

/-! ## The main loop -/

/-- A reading of the gyro or of the accelerometer. -/
structure Raw where
  x : Int16
  y : Int16
  z : Int16
deriving DecidableEq, Repr

section Loop

variable {F : Type*} [Field F]

/-- `pi`. -/
def pi : F := 3.14159265358979

/-- `gyroConversion`. -/
def gyroConversion : F := 285 / 32767

/-- `accelR`. -/
def accelR : F := 0.00005

/-- A reading, converted to doubles. -/
def Raw.toVec (raw : Raw) : Vec F := ⟨raw.x.toInt, raw.y.toInt, raw.z.toInt⟩

/-- `sumX`, `sumY` and `sumZ` after the readings of a start-up. -/
def sumReadings {n : ℕ} (readings : Fin n → Raw) : Vec F :=
  ⟨∑ i, ((readings i).x.toInt : F), ∑ i, ((readings i).y.toInt : F),
    ∑ i, ((readings i).z.toInt : F)⟩

/-- `calculateGyroBias`. -/
def calculateGyroBias (readings : Fin 500 → Raw) : Vec F :=
  let sum : Vec F := sumReadings readings
  ⟨sum.x0 / 500, sum.x1 / 500, sum.x2 / 500⟩

/-- `calculateExpectedAccel`. -/
def calculateExpectedAccel (readings : Fin 100 → Raw) : Vec F :=
  let sum : Vec F := sumReadings readings
  ⟨sum.x0 / 100, sum.x1 / 100, sum.x2 / 100⟩

/-- `updateOmega`. -/
def updateOmega (bias : Vec F) (raw : Raw) : Vec F :=
  ⟨(raw.x.toInt - bias.x0) * gyroConversion * (pi / 180),
    (raw.y.toInt - bias.x1) * gyroConversion * (pi / 180),
    (raw.z.toInt - bias.x2) * gyroConversion * (pi / 180)⟩

/-- The length of a quaternion, as both functions compute it. -/
def Quat.mag (fns : MathFns F) (q : Quat F) : F :=
  fns.sqrt (q.q0 * q.q0 + q.q1 * q.q1 + q.q2 * q.q2 + q.q3 * q.q3)

/-- `q_new` of `kalmanPropagate`, before it is normalized. -/
def turnedQuat (fns : MathFns F) (dt : F) (w : Vec F) (q : Quat F) : Quat F :=
  let w_mag := w.mag fns
  let w_magdt05 := w_mag * dt * 0.5
  let c := fns.cos w_magdt05
  let psi0 := fns.sin w_magdt05 * w.x0 / w_mag
  let psi1 := fns.sin w_magdt05 * w.x1 / w_mag
  let psi2 := fns.sin w_magdt05 * w.x2 / w_mag
  ⟨c * q.q0 + psi2 * q.q1 - psi1 * q.q2 + psi0 * q.q3,
   c * q.q1 - psi2 * q.q0 + psi0 * q.q2 + psi1 * q.q3,
   c * q.q2 + psi1 * q.q0 - psi0 * q.q1 + psi2 * q.q3,
   c * q.q3 - psi0 * q.q0 - psi1 * q.q1 - psi2 * q.q2⟩

/-- `q_new` of `kalmanUpdate`, before it is normalized. -/
def correctedQuat (fns : MathFns F) (s : Filter F) (y_i y_b : Vec F) (R : F) : Quat F :=
  let update := kalmanUpdate fns s y_i y_b R
  let PHT := calcPHT s.m_P (rotate s.m_q update.y_i)
  updateQuat s.m_q (calcK PHT (invPr update.pr)) update.residual

/-- What `kalmanPropagate` divides by: `w_mag` and `q_mag`, above the threshold. -/
def propagateDivisors (fns : MathFns F) (s : Filter F) : List F :=
  if fns.gt (s.m_w.mag fns) 1.745329251994330e-004 then
    [s.m_w.mag fns, (turnedQuat fns sampleTime s.m_w s.m_q).mag fns]
  else []

/-- What `kalmanUpdate` divides by: `y_mag` of both vectors, `detPr` and `q_mag`. -/
def updateDivisors (fns : MathFns F) (s : Filter F) (y_i y_b : Vec F) (R : F) : List F :=
  [y_i.mag fns, y_b.mag fns, detPr (kalmanUpdate fns s y_i y_b R).pr,
    (correctedQuat fns s y_i y_b R).mag fns]

/-- A call of `kalmanUpdate` or `kalmanPropagate`: what it has divided by, and `m_q` after it. -/
structure Call (F : Type*) where
  divisors : List F
  m_q : Quat F

/-- The members that the loop reads and writes, and its count. It is an `int` in the source, which
at 100 iterations a second takes 248 days to leave its 32 bits. -/
structure Resolver (F : Type*) where
  filter : Filter F
  bias : Vec F
  m_expectedAccel : Vec F
  count : ℕ

/-- The resolver when the loop is entered. -/
def startUp (gyros : Fin 500 → Raw) (accels : Fin 100 → Raw) : Resolver F :=
  ⟨initialFilter, calculateGyroBias gyros, calculateExpectedAccel accels, 0⟩

/-- The call of `kalmanUpdate` in an iteration, which normalizes the expected acceleration in
place. -/
def Resolver.update (fns : MathFns F) (s : Resolver F) (accel : Raw) : Resolver F × Call F :=
  let update := kalmanUpdate fns s.filter s.m_expectedAccel accel.toVec accelR
  ({ s with filter := update.filter, m_expectedAccel := update.y_i },
    ⟨updateDivisors fns s.filter s.m_expectedAccel accel.toVec accelR, update.filter.m_q⟩)

/-- The call of `kalmanPropagate`, and the count. -/
def Resolver.propagate (fns : MathFns F) (s : Resolver F) : Resolver F × Call F :=
  let filter := kalmanPropagate fns s.filter
  ({ s with filter, count := s.count + 1 }, ⟨propagateDivisors fns s.filter, filter.m_q⟩)

/-- An iteration of the loop, with the readings of the gyro and of the accelerometer. -/
def Resolver.iterate (fns : MathFns F) (s : Resolver F) (gyro accel : Raw) :
    Resolver F × List (Call F) :=
  let sampled := { s with filter := { s.filter with m_w := updateOmega s.bias gyro } }
  if s.count % 20 = 0 then
    let updated := sampled.update fns accel
    let propagated := updated.1.propagate fns
    (propagated.1, [updated.2, propagated.2])
  else
    let propagated := sampled.propagate fns
    (propagated.1, [propagated.2])

/-- The calls of the loop. -/
def Resolver.calls (fns : MathFns F) : Resolver F → List (Raw × Raw) → List (Call F)
  | _, [] => []
  | s, (gyro, accel) :: readings =>
    let iterated := s.iterate fns gyro accel
    iterated.2 ++ iterated.1.calls fns readings

/-- The calls of `run`. -/
def run (fns : MathFns F) (gyros : Fin 500 → Raw) (accels : Fin 100 → Raw)
    (readings : List (Raw × Raw)) : List (Call F) :=
  (startUp gyros accels).calls fns readings

theorem propagateQuat_eq (fns : MathFns F) (dt : F) (w : Vec F) (q : Quat F) :
    propagateQuat fns dt w q = if fns.gt (w.mag fns) 1.745329251994330e-004 then
      (turnedQuat fns dt w q).normalize fns else q := rfl

theorem kalmanUpdate_m_q (fns : MathFns F) (s : Filter F) (y_i y_b : Vec F) (R : F) :
    (kalmanUpdate fns s y_i y_b R).filter.m_q =
      (correctedQuat fns s y_i y_b R).normalize fns := rfl

end Loop

/-! ## Quaternions of unit length -/

/-- The functions of the C library, over the reals. -/
noncomputable def realFns : MathFns ℝ where
  sqrt := Real.sqrt
  sin := Real.sin
  cos := Real.cos
  asin := Real.arcsin
  atan2 y x := Complex.arg ⟨x, y⟩
  gt a b := decide (a > b)

/-- The quaternion that the four slots hold, the real part in the last. -/
def Quat.toQuaternion (q : Quat ℝ) : Quaternion ℝ := ⟨q.q3, q.q0, q.q1, q.q2⟩

@[simp] theorem Quat.toQuaternion_re (q : Quat ℝ) : q.toQuaternion.re = q.q3 := rfl
@[simp] theorem Quat.toQuaternion_imI (q : Quat ℝ) : q.toQuaternion.imI = q.q0 := rfl
@[simp] theorem Quat.toQuaternion_imJ (q : Quat ℝ) : q.toQuaternion.imJ = q.q1 := rfl
@[simp] theorem Quat.toQuaternion_imK (q : Quat ℝ) : q.toQuaternion.imK = q.q2 := rfl

/-- The product of two quaternions, as both functions expand it. -/
def Quat.mul (q p : Quat ℝ) : Quat ℝ :=
  ⟨p.q3 * q.q0 + p.q2 * q.q1 - p.q1 * q.q2 + p.q0 * q.q3,
   p.q3 * q.q1 - p.q2 * q.q0 + p.q0 * q.q2 + p.q1 * q.q3,
   p.q3 * q.q2 + p.q1 * q.q0 - p.q0 * q.q1 + p.q2 * q.q3,
   p.q3 * q.q3 - p.q0 * q.q0 - p.q1 * q.q1 - p.q2 * q.q2⟩

/-- What `kalmanUpdate` multiplies the attitude by. -/
def correction (K : Rows ℝ) (residual : Vec ℝ) : Quat ℝ :=
  ⟨(K.k0 * residual.x0 + K.k1 * residual.x1 + K.k2 * residual.x2) * 0.5,
   (K.k3 * residual.x0 + K.k4 * residual.x1 + K.k5 * residual.x2) * 0.5,
   (K.k6 * residual.x0 + K.k7 * residual.x1 + K.k8 * residual.x2) * 0.5,
   1⟩

/-- What `kalmanPropagate` multiplies the attitude by. -/
noncomputable def rotation (dt : ℝ) (w : Vec ℝ) : Quat ℝ :=
  let w_mag := w.mag realFns
  ⟨Real.sin (w_mag * dt * 0.5) * w.x0 / w_mag,
   Real.sin (w_mag * dt * 0.5) * w.x1 / w_mag,
   Real.sin (w_mag * dt * 0.5) * w.x2 / w_mag,
   Real.cos (w_mag * dt * 0.5)⟩

section Units

/-- The norm, by the slots. -/
theorem Quat.norm_sq (q : Quat ℝ) : ‖q.toQuaternion‖ ^ 2 =
    q.q0 * q.q0 + q.q1 * q.q1 + q.q2 * q.q2 + q.q3 * q.q3 := by
  rw [sq, ← Quaternion.normSq_eq_norm_mul_self, Quaternion.normSq_def', toQuaternion_re,
    toQuaternion_imI, toQuaternion_imJ, toQuaternion_imK]
  ring

/-- The length computed is the norm. -/
theorem Quat.mag_eq_norm (q : Quat ℝ) : q.mag realFns = ‖q.toQuaternion‖ := by
  rw [Quat.mag, ← Quat.norm_sq]
  exact Real.sqrt_sq (norm_nonneg _)

/-- Normalized is divided by the norm. -/
theorem Quat.normalize_toQuaternion (q : Quat ℝ) :
    (q.normalize realFns).toQuaternion = ‖q.toQuaternion‖⁻¹ • q.toQuaternion := by
  rw [← Quat.mag_eq_norm]
  ext <;> simp [Quat.normalize, Quat.mag, div_eq_inv_mul]

/-- A quaternion that is not zero becomes a unit. -/
theorem Quat.norm_normalize {q : Quat ℝ} (h : ‖q.toQuaternion‖ ≠ 0) :
    ‖(q.normalize realFns).toQuaternion‖ = 1 := by
  rw [Quat.normalize_toQuaternion, norm_smul, norm_inv, norm_norm, inv_mul_cancel₀ h]

/-- The expanded product is that of the quaternions. -/
theorem Quat.mul_toQuaternion (q p : Quat ℝ) :
    (q.mul p).toQuaternion = q.toQuaternion * p.toQuaternion := by
  ext
  all_goals
    simp only [Quat.mul, toQuaternion_re, toQuaternion_imI, toQuaternion_imJ, toQuaternion_imK,
      Quaternion.re_mul, Quaternion.imI_mul, Quaternion.imJ_mul, Quaternion.imK_mul]
    ring

theorem Quat.norm_toQuaternion_mul (q p : Quat ℝ) :
    ‖(q.mul p).toQuaternion‖ = ‖q.toQuaternion‖ * ‖p.toQuaternion‖ := by
  rw [Quat.mul_toQuaternion, norm_mul]

theorem updateQuat_eq_mul (q : Quat ℝ) (K : Rows ℝ) (residual : Vec ℝ) :
    updateQuat q K residual = q.mul (correction K residual) := by
  simp only [updateQuat, Quat.mul, correction, one_mul]

theorem turnedQuat_eq_mul (dt : ℝ) (w : Vec ℝ) (q : Quat ℝ) :
    turnedQuat realFns dt w q = q.mul (rotation dt w) := rfl

/-- A quaternion whose real part is one is not shorter than one. -/
theorem one_le_norm_correction (K : Rows ℝ) (residual : Vec ℝ) :
    1 ≤ ‖(correction K residual).toQuaternion‖ := by
  refine (one_le_sq_iff₀ (norm_nonneg _)).mp ?_
  rw [Quat.norm_sq]
  generalize hp : correction K residual = p
  have hreal : p.q3 = 1 := by rw [← hp, correction]
  rw [hreal]
  linarith [mul_self_nonneg p.q0, mul_self_nonneg p.q1, mul_self_nonneg p.q2]

/-- So an update does not shorten a unit. -/
theorem one_le_norm_updateQuat {q : Quat ℝ} (hq : ‖q.toQuaternion‖ = 1) (K : Rows ℝ)
    (residual : Vec ℝ) : 1 ≤ ‖(updateQuat q K residual).toQuaternion‖ := by
  calc 1 ≤ ‖(correction K residual).toQuaternion‖ := one_le_norm_correction K residual
    _ = ‖q.toQuaternion‖ * ‖(correction K residual).toQuaternion‖ := by rw [hq, one_mul]
    _ = ‖(updateQuat q K residual).toQuaternion‖ := by
        rw [updateQuat_eq_mul, Quat.norm_toQuaternion_mul]

/-- The length of a vector, squared. -/
theorem Vec.mag_mul_mag (v : Vec ℝ) :
    v.mag realFns * v.mag realFns = v.x0 * v.x0 + v.x1 * v.x1 + v.x2 * v.x2 :=
  Real.mul_self_sqrt (by
    linarith [mul_self_nonneg v.x0, mul_self_nonneg v.x1, mul_self_nonneg v.x2])

/-- A vector has the length zero only if it is zero. -/
theorem Vec.mag_eq_zero_iff (v : Vec ℝ) :
    v.mag realFns = 0 ↔ v.x0 = 0 ∧ v.x1 = 0 ∧ v.x2 = 0 := by
  rw [← mul_self_eq_zero, Vec.mag_mul_mag]
  constructor
  · intro h
    have h0 := mul_self_nonneg v.x0
    have h1 := mul_self_nonneg v.x1
    have h2 := mul_self_nonneg v.x2
    exact ⟨mul_self_eq_zero.mp (by linarith), mul_self_eq_zero.mp (by linarith),
      mul_self_eq_zero.mp (by linarith)⟩
  · rintro ⟨h0, h1, h2⟩
    rw [h0, h1, h2]
    norm_num

/-- A vector that is not zero is normalized to the length one. -/
theorem Vec.mag_normalize {v : Vec ℝ} (h : v.mag realFns ≠ 0) :
    (v.normalize realFns).mag realFns = 1 := by
  have hsq : (v.normalize realFns).mag realFns * (v.normalize realFns).mag realFns = 1 := by
    rw [Vec.mag_mul_mag, Vec.normalize]
    field_simp
    linarith [Vec.mag_mul_mag v]
  exact (mul_self_eq_one_iff.mp hsq).resolve_right fun hneg => by
    have hnonneg : 0 ≤ (v.normalize realFns).mag realFns := Real.sqrt_nonneg _
    linarith

/-- A rotation is a unit. -/
theorem norm_rotation (dt : ℝ) {w : Vec ℝ} (h : w.mag realFns ≠ 0) :
    ‖(rotation dt w).toQuaternion‖ = 1 := by
  have hsq : ‖(rotation dt w).toQuaternion‖ ^ 2 = 1 := by
    rw [Quat.norm_sq, rotation]
    generalize w.mag realFns * dt * 0.5 = angle
    have hmag := Vec.mag_mul_mag w
    have hone := Real.sin_sq_add_cos_sq angle
    calc _ = Real.sin angle ^ 2 * (w.x0 * w.x0 + w.x1 * w.x1 + w.x2 * w.x2) /
          (w.mag realFns * w.mag realFns) + Real.cos angle ^ 2 := by
          field_simp
      _ = 1 := by rw [← hmag, mul_div_cancel_right₀ _ (mul_ne_zero h h), hone]
  exact (pow_eq_one_iff_of_nonneg (norm_nonneg _) two_ne_zero).mp hsq

end Units

/-! ## The calls of a run -/

/-- The quaternion is a unit, and the covariance valid. -/
structure Filter.Valid (s : Filter ℝ) : Prop where
  unit : ‖s.m_q.toQuaternion‖ = 1
  posSemidef : s.m_P.toMatrix.PosSemidef

/-- A call leaves a quaternion of norm one, and has divided by nothing that is zero. -/
structure Call.Good (call : Call ℝ) : Prop where
  unit : ‖call.m_q.toQuaternion‖ = 1
  divisors : ∀ divisor ∈ call.divisors, divisor ≠ 0

section Calls

variable {s : Filter ℝ}

theorem accelR_pos : (0 : ℝ) < accelR := by
  rw [accelR]
  norm_num

/-- The constructor's filter. -/
theorem initialFilter_valid : (initialFilter : Filter ℝ).Valid where
  unit := by
    refine (pow_eq_one_iff_of_nonneg (norm_nonneg _) two_ne_zero).mp ?_
    rw [Quat.norm_sq, initialFilter]
    norm_num
  posSemidef := initial_posSemidef

/-- The attitude is not shortened by an update. -/
theorem one_le_norm_correctedQuat (h : s.Valid) (y_i y_b : Vec ℝ) (R : ℝ) :
    1 ≤ ‖(correctedQuat realFns s y_i y_b R).toQuaternion‖ :=
  one_le_norm_updateQuat h.unit _ _

/-- An update keeps the filter valid. -/
theorem kalmanUpdate_valid (h : s.Valid) (y_i y_b : Vec ℝ) {R : ℝ} (hR : 0 < R) :
    (kalmanUpdate realFns s y_i y_b R).filter.Valid where
  unit := by
    rw [kalmanUpdate_m_q]
    exact Quat.norm_normalize (by linarith [one_le_norm_correctedQuat h y_i y_b R])
  posSemidef := by
    have hstep : (CovCall.step s.m_P (.update R (rotate s.m_q (y_i.normalize realFns)))
        ).toMatrix.PosSemidef := step_posSemidef h.posSemidef fun R' Ry heq => by
      cases heq
      exact hR
    exact hstep

/-- An update is good exactly when neither vector is zero. -/
theorem update_good_iff (h : s.Valid) (y_i y_b : Vec ℝ) {R : ℝ} (hR : 0 < R) :
    Call.Good ⟨updateDivisors realFns s y_i y_b R,
        (kalmanUpdate realFns s y_i y_b R).filter.m_q⟩ ↔
      y_i.mag realFns ≠ 0 ∧ y_b.mag realFns ≠ 0 := by
  have hdet : 0 < detPr (kalmanUpdate realFns s y_i y_b R).pr :=
    updateDet_pos h.posSemidef hR (rotate s.m_q (y_i.normalize realFns))
  have hmag : (correctedQuat realFns s y_i y_b R).mag realFns ≠ 0 := by
    rw [Quat.mag_eq_norm]
    linarith [one_le_norm_correctedQuat h y_i y_b R]
  constructor
  · intro hgood
    exact ⟨hgood.divisors _ (by simp [updateDivisors]), hgood.divisors _ (by simp [updateDivisors])⟩
  · rintro ⟨hy_i, hy_b⟩
    refine ⟨(kalmanUpdate_valid h y_i y_b hR).unit, ?_⟩
    simp only [updateDivisors, List.forall_mem_cons, List.not_mem_nil, false_implies,
      implies_true, and_true]
    exact ⟨hy_i, hy_b, hdet.ne', hmag⟩

/-- The length is above the threshold. -/
theorem mag_ne_zero_of_gt {w : Vec ℝ}
    (h : realFns.gt (w.mag realFns) 1.745329251994330e-004 = true) : w.mag realFns ≠ 0 := by
  have hlt : (1.745329251994330e-004 : ℝ) < w.mag realFns := of_decide_eq_true h
  have hpos : (0 : ℝ) < 1.745329251994330e-004 := by norm_num
  exact (hpos.trans hlt).ne'

/-- A turned attitude is still a unit. -/
theorem norm_turnedQuat (h : s.Valid) (hw : s.m_w.mag realFns ≠ 0) :
    ‖(turnedQuat realFns sampleTime s.m_w s.m_q).toQuaternion‖ = 1 := by
  calc ‖(turnedQuat realFns sampleTime s.m_w s.m_q).toQuaternion‖
      = ‖s.m_q.toQuaternion‖ * ‖(rotation sampleTime s.m_w).toQuaternion‖ := by
        rw [turnedQuat_eq_mul, Quat.norm_toQuaternion_mul]
    _ = 1 := by rw [h.unit, norm_rotation _ hw, one_mul]

/-- A propagation keeps the filter valid. -/
theorem kalmanPropagate_valid (h : s.Valid) : (kalmanPropagate realFns s).Valid where
  unit := by
    rw [kalmanPropagate, propagateQuat_eq]
    split_ifs with hgt
    · exact Quat.norm_normalize (by simp [norm_turnedQuat h (mag_ne_zero_of_gt hgt)])
    · exact h.unit
  posSemidef := by
    have hstep : (CovCall.step s.m_P (.propagate s.m_w)).toMatrix.PosSemidef :=
      step_posSemidef h.posSemidef fun R Ry heq => by cases heq
    exact hstep

/-- A propagation is good. -/
theorem propagate_good (h : s.Valid) :
    Call.Good ⟨propagateDivisors realFns s, (kalmanPropagate realFns s).m_q⟩ where
  unit := (kalmanPropagate_valid h).unit
  divisors := by
    rw [propagateDivisors]
    split_ifs with hgt
    · have hw := mag_ne_zero_of_gt hgt
      simp only [List.forall_mem_cons, List.not_mem_nil, false_implies, implies_true, and_true]
      exact ⟨hw, by rw [Quat.mag_eq_norm, norm_turnedQuat h hw]; exact one_ne_zero⟩
    · exact fun divisor hmem => absurd hmem List.not_mem_nil

end Calls

section Runs

variable {s : Resolver ℝ}

/-- A reading that is not zero has a length. -/
theorem mag_toVec_ne_zero_iff (raw : Raw) : raw.toVec.mag realFns ≠ 0 ↔ raw ≠ ⟨0, 0, 0⟩ := by
  rw [ne_eq, ne_eq, not_iff_not, Vec.mag_eq_zero_iff]
  obtain ⟨x, y, z⟩ := raw
  have hzero (n : Int16) : (n.toInt : ℝ) = 0 ↔ n = 0 := by
    rw [Int.cast_eq_zero, ← Int16.toInt_inj, Int16.toInt_zero]
  simp only [Raw.toVec, hzero, Raw.mk.injEq]

/-- An iteration is good unless it updates with a vector that is zero. -/
theorem iterate_good_iff (h : s.filter.Valid) (gyro accel : Raw) :
    (∀ call ∈ (s.iterate realFns gyro accel).2, call.Good) ↔
      (s.count % 20 = 0 → s.m_expectedAccel.mag realFns ≠ 0 ∧ accel ≠ ⟨0, 0, 0⟩) := by
  rw [Resolver.iterate]
  generalize homega : updateOmega s.bias gyro = w
  have hw : Filter.Valid { s.filter with m_w := w } := ⟨h.unit, h.posSemidef⟩
  split_ifs with hcount
  · have hupdated := kalmanUpdate_valid hw s.m_expectedAccel accel.toVec accelR_pos
    have hiff := update_good_iff hw s.m_expectedAccel accel.toVec accelR_pos
    rw [mag_toVec_ne_zero_iff] at hiff
    simp only [List.forall_mem_cons, hcount, true_implies]
    refine ⟨fun hall => hiff.mp hall.1, fun hne => ⟨hiff.mpr hne, propagate_good hupdated, ?_⟩⟩
    exact fun call hmem => absurd hmem List.not_mem_nil
  · simp only [hcount, false_implies, iff_true, List.forall_mem_singleton]
    exact propagate_good hw

/-- An iteration keeps the filter valid. -/
theorem iterate_valid (h : s.filter.Valid) (gyro accel : Raw) :
    (s.iterate realFns gyro accel).1.filter.Valid := by
  rw [Resolver.iterate]
  generalize homega : updateOmega s.bias gyro = w
  have hw : Filter.Valid { s.filter with m_w := w } := ⟨h.unit, h.posSemidef⟩
  split_ifs with hcount
  · exact kalmanPropagate_valid (kalmanUpdate_valid hw s.m_expectedAccel accel.toVec accelR_pos)
  · exact kalmanPropagate_valid hw

/-- The expected acceleration is not zero after an iteration if it was not before. -/
theorem iterate_expectedAccel (h : s.m_expectedAccel.mag realFns ≠ 0) (gyro accel : Raw) :
    (s.iterate realFns gyro accel).1.m_expectedAccel.mag realFns ≠ 0 := by
  rw [Resolver.iterate]
  split_ifs with hcount
  · have hmag := Vec.mag_normalize h
    exact ne_of_eq_of_ne hmag one_ne_zero
  · exact h

theorem iterate_count (s : Resolver ℝ) (gyro accel : Raw) :
    (s.iterate realFns gyro accel).1.count = s.count + 1 := by
  rw [Resolver.iterate]
  split_ifs <;> rfl

/-- From where the expected acceleration is not zero, the calls are good exactly when no reading
that they update with is zero. -/
theorem calls_good_iff (h : s.filter.Valid) (hexpected : s.m_expectedAccel.mag realFns ≠ 0)
    (readings : List (Raw × Raw)) :
    (∀ call ∈ s.calls realFns readings, call.Good) ↔
      ∀ k reading, readings[k]? = some reading → (s.count + k) % 20 = 0 →
        reading.2 ≠ ⟨0, 0, 0⟩ := by
  induction readings generalizing s with
  | nil => simp [Resolver.calls]
  | cons reading readings ih =>
    obtain ⟨gyro, accel⟩ := reading
    have hfirst := iterate_good_iff h gyro accel
    have hrest := ih (iterate_valid h gyro accel) (iterate_expectedAccel hexpected gyro accel)
    rw [iterate_count] at hrest
    rw [Resolver.calls, List.forall_mem_append, hfirst, hrest]
    constructor
    · rintro ⟨hhead, htail⟩ k reading hk hcount
      cases k with
      | zero =>
        obtain rfl := Option.some.inj hk
        exact (hhead hcount).2
      | succ k =>
        rw [show s.count + (k + 1) = s.count + 1 + k by omega] at hcount
        exact htail k reading hk hcount
    · intro hall
      refine ⟨fun hcount => ⟨hexpected, hall 0 (gyro, accel) rfl hcount⟩,
        fun k reading hk hcount => ?_⟩
      rw [show s.count + 1 + k = s.count + (k + 1) by omega] at hcount
      exact hall (k + 1) reading hk hcount

/-- The readings of a start-up add up to the zero vector. -/
def SumsToZero {n : ℕ} (readings : Fin n → Raw) : Prop :=
  ∑ i, (readings i).x.toInt = 0 ∧ ∑ i, (readings i).y.toInt = 0 ∧ ∑ i, (readings i).z.toInt = 0

/-- The average is zero only if the sum is. -/
theorem mag_calculateExpectedAccel_ne_zero_iff (accels : Fin 100 → Raw) :
    (calculateExpectedAccel accels : Vec ℝ).mag realFns ≠ 0 ↔ ¬ SumsToZero accels := by
  rw [ne_eq, not_iff_not, Vec.mag_eq_zero_iff, SumsToZero]
  have hzero (f : Fin 100 → ℤ) : (∑ i, (f i : ℝ)) / 100 = 0 ↔ ∑ i, f i = 0 := by
    rw [div_eq_zero_iff, or_iff_left (by norm_num : ¬ (100 : ℝ) = 0), ← Int.cast_sum,
      Int.cast_eq_zero]
  exact and_congr (hzero fun i => (accels i).x.toInt)
    (and_congr (hzero fun i => (accels i).y.toInt) (hzero fun i => (accels i).z.toInt))

/-- In every run, the attitude is a quaternion of norm one after each call, and no call divides by
zero, exactly when the readings of the start-up do not average to the zero vector (if the loop is
run at all) and no reading that the filter is updated with is zero. -/
theorem unit_quaternion_iff (gyros : Fin 500 → Raw) (accels : Fin 100 → Raw)
    (readings : List (Raw × Raw)) :
    (∀ call ∈ run realFns gyros accels readings, call.Good) ↔
      (readings ≠ [] → ¬ SumsToZero accels) ∧
        ∀ k reading, readings[k]? = some reading → k % 20 = 0 → reading.2 ≠ ⟨0, 0, 0⟩ := by
  have hvalid : (startUp gyros accels : Resolver ℝ).filter.Valid := initialFilter_valid
  have hmag := mag_calculateExpectedAccel_ne_zero_iff accels
  by_cases hsum : SumsToZero accels
  · cases readings with
    | nil => simp [run, Resolver.calls]
    | cons reading readings =>
      -- The first iteration updates with the average, which is zero.
      refine iff_of_false (fun hall => ?_) fun hcond => hcond.1 (List.cons_ne_nil _ _) hsum
      rw [run, Resolver.calls, List.forall_mem_append, iterate_good_iff hvalid] at hall
      exact hmag.mp (hall.1 rfl).1 hsum
  · rw [run, calls_good_iff hvalid (hmag.mpr hsum)]
    simp only [startUp, Nat.zero_add]
    exact ⟨fun hall => ⟨fun _ => hsum, hall⟩, fun hcond => hcond.2⟩

/-- An accelerometer that reads zero in the first iteration makes the update divide by zero. -/
theorem zero_reading_divided : ¬ ∀ (gyros : Fin 500 → Raw) (accels : Fin 100 → Raw)
    (readings : List (Raw × Raw)), ∀ call ∈ run realFns gyros accels readings, call.Good := by
  intro hall
  have hcalls := hall (fun _ => ⟨0, 0, 0⟩) (fun _ => ⟨0, 0, 16384⟩) [(⟨0, 0, 0⟩, ⟨0, 0, 0⟩)]
  rw [run, Resolver.calls, List.forall_mem_append, iterate_good_iff initialFilter_valid] at hcalls
  exact (hcalls.1 rfl).2 rfl

end Runs

end Guillemot.Attitude
