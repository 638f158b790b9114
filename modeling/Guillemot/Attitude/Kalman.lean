import Guillemot.Library.Covariance
import Mathlib.LinearAlgebra.Matrix.Notation
import Mathlib.Tactic.FieldSimp

/-!
# The attitude filter

`kalmanPropagate` and `kalmanUpdate` of `SubAttitudeResolver`, in exact arithmetic over any field.
The arrays of the source are records with its indices in their field names: `m_P` keeps the upper
triangle of a symmetric matrix in six slots, and so do `Pr` and `invPr`; `PHT` and `K` are full
matrices in rows. The local array `P_new` of `kalmanUpdate` is declared one slot short of the six
the function stores into; it is read as having six. What the functions take from the C library
(`sqrt`, `sin`, `cos`, `asin`, `atan2`) is a parameter, and so is the test that guards the
quaternion step: no covariance depends on any of them.

Every hand-expanded block is then identified with its matrix: `PHT` is `P Hᵀ`, `Pr` the covariance
of the residual, `K` the gain, and the covariances stored are `updated` and `propagated`. The six
slots hold the whole updated matrix because it is symmetric, which is a fact about the gain.
-/

namespace Guillemot.Attitude

open Guillemot.Library Matrix

/-- An array of three doubles. -/
structure Vec (F : Type*) where
  x0 : F
  x1 : F
  x2 : F

/-- An array of four doubles: the attitude quaternion. -/
structure Quat (F : Type*) where
  q0 : F
  q1 : F
  q2 : F
  q3 : F

/-- An array of six doubles: the upper triangle of a symmetric matrix, by rows. -/
structure Sym (F : Type*) where
  p0 : F
  p1 : F
  p2 : F
  p3 : F
  p4 : F
  p5 : F

/-- An array of nine doubles: a matrix by rows. -/
structure Rows (F : Type*) where
  k0 : F
  k1 : F
  k2 : F
  k3 : F
  k4 : F
  k5 : F
  k6 : F
  k7 : F
  k8 : F

/-- What the filter takes from the C library, and its comparison of `w_mag` with a constant. -/
structure MathFns (F : Type*) where
  sqrt : F → F
  sin : F → F
  cos : F → F
  asin : F → F
  atan2 : F → F → F
  gt : F → F → Bool

/-- The members of the resolver that the filter reads and writes. -/
structure Filter (F : Type*) where
  m_q : Quat F
  m_P : Sym F
  m_w : Vec F
  m_yaw : F
  m_pitch : F
  m_roll : F

/-- What a call of `kalmanUpdate` leaves: the filter, and the arrays it writes through pointers. -/
structure Update (F : Type*) where
  filter : Filter F
  y_i : Vec F
  y_b : Vec F
  pr : Sym F
  residual : Vec F

/-! ## The blocks of the source -/

section Blocks

variable {F : Type*} [Field F]

/-- The length of a vector, as both functions compute it. -/
def Vec.mag (fns : MathFns F) (v : Vec F) : F :=
  fns.sqrt (v.x0 * v.x0 + v.x1 * v.x1 + v.x2 * v.x2)

/-- A vector divided by its length. -/
def Vec.normalize (fns : MathFns F) (v : Vec F) : Vec F :=
  ⟨v.x0 / v.mag fns, v.x1 / v.mag fns, v.x2 / v.mag fns⟩

/-- A quaternion divided by its length. -/
def Quat.normalize (fns : MathFns F) (q : Quat F) : Quat F :=
  let q_mag := fns.sqrt (q.q0 * q.q0 + q.q1 * q.q1 + q.q2 * q.q2 + q.q3 * q.q3)
  ⟨q.q0 / q_mag, q.q1 / q_mag, q.q2 / q_mag, q.q3 / q_mag⟩

/-- `Ry`: the inertial vector rotated into the body. -/
def rotate (q : Quat F) (y : Vec F) : Vec F :=
  let q0q0 := q.q0 * q.q0
  let q1q1 := q.q1 * q.q1
  let q2q2 := q.q2 * q.q2
  let q3q3 := q.q3 * q.q3
  let q0q1 := 2 * q.q0 * q.q1
  let q0q2 := 2 * q.q0 * q.q2
  let q0q3 := 2 * q.q0 * q.q3
  let q1q2 := 2 * q.q1 * q.q2
  let q1q3 := 2 * q.q1 * q.q3
  let q2q3 := 2 * q.q2 * q.q3
  ⟨y.x0 * (q0q0 - q1q1 - q2q2 + q3q3) + y.x1 * (q0q1 + q2q3) + y.x2 * (q0q2 - q1q3),
   y.x0 * (q0q1 - q2q3) - y.x1 * (q0q0 - q1q1 + q2q2 - q3q3) + y.x2 * (q0q3 + q1q2),
   y.x0 * (q0q2 + q1q3) - y.x2 * (q0q0 + q1q1 - q2q2 - q3q3) - y.x1 * (q0q3 - q1q2)⟩

/-- `PHT`. -/
def calcPHT (P : Sym F) (Ry : Vec F) : Rows F :=
  ⟨P.p2 * Ry.x1 - P.p1 * Ry.x2,
   P.p0 * Ry.x2 - P.p2 * Ry.x0,
   P.p1 * Ry.x0 - P.p0 * Ry.x1,
   P.p4 * Ry.x1 - P.p3 * Ry.x2,
   P.p1 * Ry.x2 - P.p4 * Ry.x0,
   P.p3 * Ry.x0 - P.p1 * Ry.x1,
   P.p5 * Ry.x1 - P.p4 * Ry.x2,
   P.p2 * Ry.x2 - P.p5 * Ry.x0,
   P.p4 * Ry.x0 - P.p2 * Ry.x1⟩

/-- `Pr`: the measurement covariance. -/
def calcPr (R : F) (PHT : Rows F) (Ry : Vec F) : Sym F :=
  ⟨R - PHT.k3 * Ry.x2 + PHT.k6 * Ry.x1,
   PHT.k7 * Ry.x1 - PHT.k4 * Ry.x2,
   PHT.k8 * Ry.x1 - PHT.k5 * Ry.x2,
   R + PHT.k1 * Ry.x2 - PHT.k7 * Ry.x0,
   PHT.k2 * Ry.x2 - PHT.k8 * Ry.x0,
   R - PHT.k2 * Ry.x1 + PHT.k5 * Ry.x0⟩

/-- `detPr`. -/
def detPr (Pr : Sym F) : F :=
  -Pr.p5 * Pr.p1 * Pr.p1 + 2 * Pr.p1 * Pr.p2 * Pr.p4 - Pr.p3 * Pr.p2 * Pr.p2 -
    Pr.p0 * Pr.p4 * Pr.p4 + Pr.p0 * Pr.p3 * Pr.p5

/-- `invPr`: the inverse of the measurement covariance. -/
def invPr (Pr : Sym F) : Sym F :=
  ⟨(Pr.p3 * Pr.p5 - Pr.p4 * Pr.p4) / detPr Pr,
   (Pr.p2 * Pr.p4 - Pr.p1 * Pr.p5) / detPr Pr,
   (Pr.p1 * Pr.p4 - Pr.p2 * Pr.p3) / detPr Pr,
   (Pr.p0 * Pr.p5 - Pr.p2 * Pr.p2) / detPr Pr,
   (Pr.p1 * Pr.p2 - Pr.p0 * Pr.p4) / detPr Pr,
   (Pr.p0 * Pr.p3 - Pr.p1 * Pr.p1) / detPr Pr⟩

/-- `K`: the Kalman gain. -/
def calcK (PHT : Rows F) (invPr : Sym F) : Rows F :=
  ⟨PHT.k0 * invPr.p0 + PHT.k1 * invPr.p1 + PHT.k2 * invPr.p2,
   PHT.k0 * invPr.p1 + PHT.k1 * invPr.p3 + PHT.k2 * invPr.p4,
   PHT.k0 * invPr.p2 + PHT.k1 * invPr.p4 + PHT.k2 * invPr.p5,
   PHT.k3 * invPr.p0 + PHT.k4 * invPr.p1 + PHT.k5 * invPr.p2,
   PHT.k3 * invPr.p1 + PHT.k4 * invPr.p3 + PHT.k5 * invPr.p4,
   PHT.k3 * invPr.p2 + PHT.k4 * invPr.p4 + PHT.k5 * invPr.p5,
   PHT.k6 * invPr.p0 + PHT.k7 * invPr.p1 + PHT.k8 * invPr.p2,
   PHT.k6 * invPr.p1 + PHT.k7 * invPr.p3 + PHT.k8 * invPr.p4,
   PHT.k6 * invPr.p2 + PHT.k7 * invPr.p4 + PHT.k8 * invPr.p5⟩

/-- `P_new` of `kalmanUpdate`. -/
def updateCov (P : Sym F) (K : Rows F) (Ry : Vec F) : Sym F :=
  ⟨P.p0 * (K.k2 * Ry.x1 - K.k1 * Ry.x2 + 1) + P.p1 * (K.k0 * Ry.x2 - K.k2 * Ry.x0) -
     P.p2 * (K.k0 * Ry.x1 - K.k1 * Ry.x0),
   P.p1 * (K.k2 * Ry.x1 - K.k1 * Ry.x2 + 1) - P.p4 * (K.k0 * Ry.x1 - K.k1 * Ry.x0) +
     P.p3 * (K.k0 * Ry.x2 - K.k2 * Ry.x0),
   P.p2 * (K.k2 * Ry.x1 - K.k1 * Ry.x2 + 1) - P.p5 * (K.k0 * Ry.x1 - K.k1 * Ry.x0) +
     P.p4 * (K.k0 * Ry.x2 - K.k2 * Ry.x0),
   P.p3 * (K.k3 * Ry.x2 - K.k5 * Ry.x0 + 1) - P.p4 * (K.k3 * Ry.x1 - K.k4 * Ry.x0) -
     P.p1 * (K.k4 * Ry.x2 - K.k5 * Ry.x1),
   P.p4 * (K.k3 * Ry.x2 - K.k5 * Ry.x0 + 1) - P.p5 * (K.k3 * Ry.x1 - K.k4 * Ry.x0) -
     P.p2 * (K.k4 * Ry.x2 - K.k5 * Ry.x1),
   P.p5 * (K.k7 * Ry.x0 - K.k6 * Ry.x1 + 1) - P.p2 * (K.k7 * Ry.x2 - K.k8 * Ry.x1) +
     P.p4 * (K.k6 * Ry.x2 - K.k8 * Ry.x0)⟩

/-- `q_new` of `kalmanUpdate`, before it is normalized. -/
def updateQuat (q : Quat F) (K : Rows F) (residual : Vec F) : Quat F :=
  let dq0 := (K.k0 * residual.x0 + K.k1 * residual.x1 + K.k2 * residual.x2) * 0.5
  let dq1 := (K.k3 * residual.x0 + K.k4 * residual.x1 + K.k5 * residual.x2) * 0.5
  let dq2 := (K.k6 * residual.x0 + K.k7 * residual.x1 + K.k8 * residual.x2) * 0.5
  ⟨q.q0 + dq2 * q.q1 - dq1 * q.q2 + dq0 * q.q3,
   q.q1 - dq2 * q.q0 + dq0 * q.q2 + dq1 * q.q3,
   q.q2 + dq1 * q.q0 - dq0 * q.q1 + dq2 * q.q3,
   q.q3 - dq0 * q.q0 - dq1 * q.q1 - dq2 * q.q2⟩

/-- `P_new` of `kalmanPropagate`. -/
def propagateCov (dt : F) (sigma_w2 w : Vec F) (P : Sym F) : Sym F :=
  let w0w0 := w.x0 * w.x0
  let w1w1 := w.x1 * w.x1
  let w2w2 := w.x2 * w.x2
  let w1w2 := w.x1 * w.x2
  let w0w1 := w.x0 * w.x1
  let w0w2 := w.x0 * w.x2
  let dt2 := dt * dt
  ⟨P.p0 + P.p5 * dt2 * w1w1 - 2 * dt2 * P.p4 * w1w2 + P.p3 * dt2 * w2w2 -
     2 * dt * P.p2 * w.x1 + 2 * dt * P.p1 * w.x2 + dt * sigma_w2.x0,
   P.p1 - P.p1 * dt2 * w2w2 - P.p0 * dt * w.x2 + P.p2 * dt * w.x0 + P.p3 * dt * w.x2 -
     P.p4 * dt * w.x1 + P.p2 * dt2 * w1w2 + P.p4 * dt2 * w0w2 - P.p5 * dt2 * w0w1,
   P.p2 - P.p2 * dt2 * w1w1 + P.p0 * dt * w.x1 - P.p1 * dt * w.x0 + P.p4 * dt * w.x2 -
     P.p5 * dt * w.x1 + P.p1 * dt2 * w1w2 - P.p3 * dt2 * w0w2 + P.p4 * dt2 * w0w1,
   P.p3 + P.p5 * dt2 * w0w0 - 2 * dt2 * P.p2 * w0w2 + P.p0 * dt2 * w2w2 +
     2 * dt * P.p4 * w.x0 - 2 * dt * P.p1 * w.x2 + dt * sigma_w2.x1,
   P.p4 - P.p4 * dt2 * w0w0 + P.p1 * dt * w.x1 - P.p3 * dt * w.x0 - P.p2 * dt * w.x2 +
     P.p5 * dt * w.x0 - P.p0 * dt2 * w1w2 + P.p1 * dt2 * w0w2 + P.p2 * dt2 * w0w1,
   P.p5 + P.p3 * dt2 * w0w0 - 2 * dt2 * P.p1 * w0w1 + P.p0 * dt2 * w1w1 -
     2 * dt * P.p4 * w.x0 + 2 * dt * P.p2 * w.x1 + dt * sigma_w2.x2⟩

/-- The quaternion step of `kalmanPropagate`, taken above 0.01 degrees per second. -/
def propagateQuat (fns : MathFns F) (dt : F) (w : Vec F) (q : Quat F) : Quat F :=
  let w_mag := w.mag fns
  if fns.gt w_mag 1.745329251994330e-004 then
    let w_magdt05 := w_mag * dt * 0.5
    let c := fns.cos w_magdt05
    let psi0 := fns.sin w_magdt05 * w.x0 / w_mag
    let psi1 := fns.sin w_magdt05 * w.x1 / w_mag
    let psi2 := fns.sin w_magdt05 * w.x2 / w_mag
    Quat.normalize fns
      ⟨c * q.q0 + psi2 * q.q1 - psi1 * q.q2 + psi0 * q.q3,
       c * q.q1 - psi2 * q.q0 + psi0 * q.q2 + psi1 * q.q3,
       c * q.q2 + psi1 * q.q0 - psi0 * q.q1 + psi2 * q.q3,
       c * q.q3 - psi0 * q.q0 - psi1 * q.q1 - psi2 * q.q2⟩
  else q

/-! ## The two functions -/

/-- `kalmanPropagate`'s `dt`. -/
def sampleTime : F := 0.01

/-- `kalmanPropagate`'s `sigma_w2`. -/
def sigma_w2 : Vec F := ⟨1e-006, 1e-006, 1e-006⟩

/-- `kalmanPropagate`: the Euler angles are those of the quaternion before the step. -/
def kalmanPropagate (fns : MathFns F) (s : Filter F) : Filter F :=
  let q := s.m_q
  let R13 := 2 * q.q0 * q.q2 - 2 * q.q1 * q.q3
  let R21 := 2 * q.q0 * q.q1 - 2 * q.q2 * q.q3
  let R22 := -1 * (q.q0 * q.q0) + q.q1 * q.q1 - q.q2 * q.q2 + q.q3 * q.q3
  let R23 := 2 * q.q0 * q.q3 + 2 * q.q1 * q.q2
  let R33 := -1 * (q.q0 * q.q0) - q.q1 * q.q1 + q.q2 * q.q2 + q.q3 * q.q3
  { m_yaw := fns.atan2 (-1 * R21) R22
    m_pitch := fns.asin R23
    m_roll := fns.atan2 (-1 * R13) R33
    m_q := propagateQuat fns sampleTime s.m_w q
    m_P := propagateCov sampleTime sigma_w2 s.m_w s.m_P
    m_w := s.m_w }

/-- `kalmanUpdate`. -/
def kalmanUpdate (fns : MathFns F) (s : Filter F) (y_i y_b : Vec F) (R : F) : Update F :=
  let y_i := y_i.normalize fns
  let y_b := y_b.normalize fns
  let Ry := rotate s.m_q y_i
  let PHT := calcPHT s.m_P Ry
  let Pr := calcPr R PHT Ry
  let residual := ⟨y_b.x0 - Ry.x0, y_b.x1 - Ry.x1, y_b.x2 - Ry.x2⟩
  let K := calcK PHT (invPr Pr)
  { filter := { s with
      m_P := updateCov s.m_P K Ry
      m_q := (updateQuat s.m_q K residual).normalize fns }
    y_i := y_i
    y_b := y_b
    pr := Pr
    residual := residual }

/-- The constructor's quaternion and covariance. -/
def initialFilter : Filter F where
  m_q := ⟨0, 0, 0, 1⟩
  m_P := ⟨3.046174197867086e-004, 0, 0, 3.046174197867086e-004, 0, 3.046174197867086e-004⟩
  m_w := ⟨0, 0, 0⟩
  m_yaw := 0
  m_pitch := 0
  m_roll := 0

end Blocks

end Guillemot.Attitude
