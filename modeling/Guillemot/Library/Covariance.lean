import Mathlib.Analysis.Matrix.PosDef

/-!
# Covariances of a linear filter

The covariance step of a Kalman filter in matrix form, over any commutative ring and for any number
of states and measurements: `innovation` is the covariance of the residual, `gain` the weight the
residual gets, `updated` the covariance after a measurement and `propagated` the one after a time
step. A symmetric covariance stays symmetric. Over the reals a positive semidefinite one stays so,
and with positive definite noise the residual's covariance is positive definite, hence invertible;
the second fact rests on the form of the update that is visibly a sum of two congruences
(`updated_eq_congruences`).
-/

namespace Guillemot.Library

open Matrix

section Algebra

variable {m n R : Type*} [Fintype m] [Fintype n] [DecidableEq m] [DecidableEq n] [CommRing R]

/-- The covariance of the residual of a measurement through `H` with noise `N`. -/
def innovation (P : Matrix n n R) (H : Matrix m n R) (N : Matrix m m R) : Matrix m m R :=
  H * P * Hᵀ + N

/-- The gain of a measurement through `H` with noise `N`. -/
noncomputable def gain (P : Matrix n n R) (H : Matrix m n R) (N : Matrix m m R) : Matrix n m R :=
  P * Hᵀ * (innovation P H N)⁻¹

/-- The covariance after a measurement through `H` with noise `N`. -/
noncomputable def updated (P : Matrix n n R) (H : Matrix m n R) (N : Matrix m m R) :
    Matrix n n R :=
  (1 - gain P H N * H) * P

/-- The covariance after a time step with transition `F` and process noise `Q`. -/
def propagated (P F Q : Matrix n n R) : Matrix n n R := F * P * Fᵀ + Q

variable {P F Q : Matrix n n R} {H : Matrix m n R} {N : Matrix m m R}

omit [Fintype m] [DecidableEq m] [DecidableEq n] in
/-- The residual's covariance is symmetric when the covariance and the noise are. -/
theorem innovation_isSymm (hP : P.IsSymm) (hN : N.IsSymm) : (innovation P H N).IsSymm := by
  have hHPH : (H * P * Hᵀ).IsSymm := by
    rw [IsSymm, transpose_mul, transpose_mul, transpose_transpose, hP.eq, Matrix.mul_assoc]
  exact hHPH.add hN

omit [DecidableEq n] in
/-- A time step keeps the covariance symmetric. -/
theorem propagated_isSymm (hP : P.IsSymm) (hQ : Q.IsSymm) : (propagated P F Q).IsSymm := by
  have hFPF : (F * P * Fᵀ).IsSymm := by
    rw [IsSymm, transpose_mul, transpose_mul, transpose_transpose, hP.eq, Matrix.mul_assoc]
  exact hFPF.add hQ

/-- What a measurement takes away from the covariance is a congruence of the inverse of the
residual's covariance. -/
theorem updated_eq_sub : updated P H N = P - P * Hᵀ * (innovation P H N)⁻¹ * (H * P) := by
  rw [updated, gain, Matrix.sub_mul, Matrix.one_mul, Matrix.mul_assoc _ H P]

/-- A measurement keeps the covariance symmetric: this is where the gain has to be the gain. -/
theorem updated_isSymm (hP : P.IsSymm) (hN : N.IsSymm) : (updated P H N).IsSymm := by
  have hS := innovation_isSymm (H := H) hP hN
  rw [updated_eq_sub]
  refine hP.sub ?_
  rw [IsSymm, transpose_mul, transpose_mul, transpose_mul, transpose_mul, transpose_nonsing_inv,
    hS.eq, transpose_transpose, hP.eq]
  simp only [Matrix.mul_assoc]

omit [DecidableEq n] in
/-- The gain times the residual's covariance is the cross covariance again. -/
theorem gain_mul_innovation (hS : IsUnit (innovation P H N).det) :
    gain P H N * innovation P H N = P * Hᵀ := by
  rw [gain, Matrix.mul_assoc, nonsing_inv_mul _ hS, Matrix.mul_one]

/-- The covariance after a measurement as a sum of two congruences. -/
theorem updated_eq_congruences (hS : IsUnit (innovation P H N).det) :
    updated P H N = (1 - gain P H N * H) * P * (1 - gain P H N * H)ᵀ +
      gain P H N * N * (gain P H N)ᵀ := by
  have hgain := gain_mul_innovation hS
  set K := gain P H N with hK
  -- the gain equation, with the noise on its own
  have hKN : K * N = P * Hᵀ - K * (H * P * Hᵀ) := by
    rw [← hgain, innovation, Matrix.mul_add, add_sub_cancel_left]
  calc updated P H N = (1 - K * H) * P := rfl
    _ = (1 - K * H) * P - ((1 - K * H) * P * Hᵀ - K * N) * Kᵀ := by
        have hzero : (1 - K * H) * P * Hᵀ - K * N = 0 := by
          rw [hKN, Matrix.sub_mul, Matrix.sub_mul, Matrix.one_mul]
          simp only [Matrix.mul_assoc, sub_self]
        rw [hzero, Matrix.zero_mul, sub_zero]
    _ = (1 - K * H) * P * (1 - K * H)ᵀ + K * N * Kᵀ := by
        rw [transpose_sub, transpose_one, transpose_mul, Matrix.mul_sub, Matrix.mul_one,
          Matrix.sub_mul _ (K * N), Matrix.mul_assoc _ Hᵀ Kᵀ]
        abel

end Algebra

section Positivity

variable {m n : Type*} [Fintype m] [Fintype n] [DecidableEq m] [DecidableEq n]
  {P F Q : Matrix n n ℝ} {H : Matrix m n ℝ} {N : Matrix m m ℝ}

omit [DecidableEq n] [DecidableEq m] in
/-- A congruence of a positive semidefinite matrix is positive semidefinite. -/
theorem posSemidef_congruence (hP : P.PosSemidef) : (H * P * Hᵀ).PosSemidef := by
  simpa only [conjTranspose_eq_transpose_of_trivial] using hP.mul_mul_conjTranspose_same H

omit [DecidableEq n] [DecidableEq m] in
/-- With positive definite noise the residual's covariance is positive definite. -/
theorem innovation_posDef (hP : P.PosSemidef) (hN : N.PosDef) : (innovation P H N).PosDef :=
  PosDef.posSemidef_add (posSemidef_congruence hP) hN

omit [DecidableEq n] in
/-- A time step keeps the covariance positive semidefinite. -/
theorem propagated_posSemidef (hP : P.PosSemidef) (hQ : Q.PosSemidef) :
    (propagated P F Q).PosSemidef :=
  (posSemidef_congruence hP).add hQ

/-- A measurement with positive definite noise keeps the covariance positive semidefinite. -/
theorem updated_posSemidef (hP : P.PosSemidef) (hN : N.PosDef) :
    (updated P H N).PosSemidef := by
  have hdet : IsUnit (innovation P H N).det := (innovation_posDef hP hN).det_pos.ne'.isUnit
  rw [updated_eq_congruences hdet]
  exact (posSemidef_congruence hP).add (posSemidef_congruence hN.posSemidef)

end Positivity

end Guillemot.Library
