import Guillemot.Attitude.Kalman
import Mathlib.Algebra.Order.Star.Real
import Mathlib.Tactic.NormNum

/-!
# The covariance of the attitude filter, as matrices

The hand-expanded blocks of the attitude filter against the matrix filter: `calcPHT`, `calcPr`,
`invPr`, `calcK`, `updateCov` and `propagateCov` are the entries of `P Hᵀ`, of the residual's
covariance, of its inverse, of the gain, and of the two new covariances. The six slots hold the
whole updated matrix because it is symmetric, which is a fact about the gain. From there the runs of
the filter are runs of the matrix filter, and over the reals its covariance stays positive
semidefinite while every determinant it divides by is positive.
-/

namespace Guillemot.Attitude

open Guillemot.Library Matrix

/-! ## Records as matrices -/

section Matrices

variable {F : Type*} [Field F]

/-- The symmetric matrix whose upper triangle the six slots hold. -/
def Sym.toMatrix (P : Sym F) : Matrix (Fin 3) (Fin 3) F :=
  !![P.p0, P.p1, P.p2; P.p1, P.p3, P.p4; P.p2, P.p4, P.p5]

/-- The matrix whose rows the nine slots hold. -/
def Rows.toMatrix (K : Rows F) : Matrix (Fin 3) (Fin 3) F :=
  !![K.k0, K.k1, K.k2; K.k3, K.k4, K.k5; K.k6, K.k7, K.k8]

/-- The cross-product matrix of a rotated vector: the measurement matrix `H`. -/
def Vec.crossMatrix (Ry : Vec F) : Matrix (Fin 3) (Fin 3) F :=
  !![0, -Ry.x2, Ry.x1; Ry.x2, 0, -Ry.x0; -Ry.x1, Ry.x0, 0]

/-- The transition matrix of a time step at angular rate `w`. -/
def transition (dt : F) (w : Vec F) : Matrix (Fin 3) (Fin 3) F := 1 - dt • w.crossMatrix

/-- The process noise of a time step. -/
def processNoise (dt : F) (sigma_w2 : Vec F) : Matrix (Fin 3) (Fin 3) F :=
  dt • diagonal ![sigma_w2.x0, sigma_w2.x1, sigma_w2.x2]

omit [Field F] in
theorem Sym.toMatrix_isSymm (P : Sym F) : P.toMatrix.IsSymm := by
  ext i j
  fin_cases i <;> fin_cases j <;> rfl

omit [Field F] in
/-- A symmetric matrix is the one its upper triangle encodes. -/
theorem Sym.toMatrix_eq (P : Sym F) {M : Matrix (Fin 3) (Fin 3) F} (hM : M.IsSymm)
    (h0 : P.p0 = M 0 0) (h1 : P.p1 = M 0 1) (h2 : P.p2 = M 0 2) (h3 : P.p3 = M 1 1)
    (h4 : P.p4 = M 1 2) (h5 : P.p5 = M 2 2) : P.toMatrix = M := by
  have h10 : M 1 0 = M 0 1 := hM.apply 0 1
  have h20 : M 2 0 = M 0 2 := hM.apply 0 2
  have h21 : M 2 1 = M 1 2 := hM.apply 1 2
  ext i j
  fin_cases i <;> fin_cases j <;> simp [Sym.toMatrix, *]

/-- The transpose of the cross-product matrix, entry by entry. -/
theorem crossMatrix_transpose (Ry : Vec F) :
    Ry.crossMatrixᵀ = !![0, Ry.x2, -Ry.x1; -Ry.x2, 0, Ry.x0; Ry.x1, -Ry.x0, 0] := by
  ext i j
  fin_cases i <;> fin_cases j <;> rfl

omit [Field F] in
/-- Nine equations between entries give one between matrices. -/
theorem rows_eq {a b c d e f g h i a' b' c' d' e' f' g' h' i' : F} (ha : a = a') (hb : b = b')
    (hc : c = c') (hd : d = d') (he : e = e') (hf : f = f') (hg : g = g') (hh : h = h')
    (hi : i = i') :
    !![a, b, c; d, e, f; g, h, i] = !![a', b', c'; d', e', f'; g', h', i'] := by
  rw [ha, hb, hc, hd, he, hf, hg, hh, hi]

/-- `PHT` is `P Hᵀ`. -/
theorem calcPHT_toMatrix (P : Sym F) (Ry : Vec F) :
    (calcPHT P Ry).toMatrix = P.toMatrix * Ry.crossMatrixᵀ := by
  rw [crossMatrix_transpose, Sym.toMatrix, mul_fin_three]
  apply rows_eq <;> simp only [calcPHT] <;> ring

/-- `Pr` is the covariance of the residual. -/
theorem calcPr_toMatrix (P : Sym F) (R : F) (Ry : Vec F) :
    (calcPr R (calcPHT P Ry) Ry).toMatrix =
      innovation P.toMatrix Ry.crossMatrix (R • 1) := by
  have hentries : innovation P.toMatrix Ry.crossMatrix (R • 1) =
      Ry.crossMatrix * (calcPHT P Ry).toMatrix + R • 1 := by
    rw [innovation, calcPHT_toMatrix, Matrix.mul_assoc]
  have hsymm : (innovation P.toMatrix Ry.crossMatrix (R • 1)).IsSymm :=
    innovation_isSymm P.toMatrix_isSymm (isSymm_one.smul R)
  refine Sym.toMatrix_eq _ hsymm ?_ ?_ ?_ ?_ ?_ ?_
  all_goals
    rw [hentries, Vec.crossMatrix, Rows.toMatrix, mul_fin_three]
    simp [calcPr]
    try ring

/-- `detPr` is the determinant. -/
theorem detPr_eq_det (Pr : Sym F) : detPr Pr = Pr.toMatrix.det := by
  simp [detPr, Sym.toMatrix, det_fin_three]
  ring

/-- `invPr` is the inverse, wherever the determinant it divides by is not zero. -/
theorem invPr_toMatrix {Pr : Sym F} (h : detPr Pr ≠ 0) :
    (invPr Pr).toMatrix = Pr.toMatrix⁻¹ := by
  refine (inv_eq_left_inv ?_).symm
  rw [Sym.toMatrix, Sym.toMatrix, mul_fin_three, one_fin_three]
  apply rows_eq <;> simp only [invPr] <;> field_simp
  -- six products of a row of cofactors with another row, three with its own
  all_goals unfold detPr
  all_goals ring

/-- `K` is the gain, wherever the determinant is not zero. -/
theorem calcK_toMatrix {P : Sym F} {R : F} {Ry : Vec F}
    (h : detPr (calcPr R (calcPHT P Ry) Ry) ≠ 0) :
    (calcK (calcPHT P Ry) (invPr (calcPr R (calcPHT P Ry) Ry))).toMatrix =
      gain P.toMatrix Ry.crossMatrix (R • 1) := by
  rw [gain, ← calcPr_toMatrix, ← calcPHT_toMatrix, ← invPr_toMatrix h]
  generalize invPr (calcPr R (calcPHT P Ry) Ry) = S, calcPHT P Ry = T
  rw [Sym.toMatrix, Rows.toMatrix, Rows.toMatrix, mul_fin_three]
  rfl

/-- For any gain that makes `(1 - K H) P` symmetric, `P_new` is that product. -/
theorem updateCov_toMatrix {P : Sym F} {K : Rows F} {Ry : Vec F}
    (hsymm : ((1 - K.toMatrix * Ry.crossMatrix) * P.toMatrix).IsSymm) :
    (updateCov P K Ry).toMatrix = (1 - K.toMatrix * Ry.crossMatrix) * P.toMatrix := by
  have hentries : (1 - K.toMatrix * Ry.crossMatrix) * P.toMatrix =
      P.toMatrix - K.toMatrix * (Ry.crossMatrix * P.toMatrix) := by
    rw [Matrix.sub_mul, Matrix.one_mul, Matrix.mul_assoc]
  refine Sym.toMatrix_eq _ hsymm ?_ ?_ ?_ ?_ ?_ ?_
  all_goals
    rw [hentries, Vec.crossMatrix, Rows.toMatrix, Sym.toMatrix, mul_fin_three, mul_fin_three]
    simp [updateCov]
    ring

/-- The covariance that `kalmanUpdate` stores is that of the matrix filter. -/
theorem updateCov_eq_updated {P : Sym F} {R : F} {Ry : Vec F}
    (h : detPr (calcPr R (calcPHT P Ry) Ry) ≠ 0) :
    (updateCov P (calcK (calcPHT P Ry) (invPr (calcPr R (calcPHT P Ry) Ry))) Ry).toMatrix =
      updated P.toMatrix Ry.crossMatrix (R • 1) := by
  have hsymm : (updated P.toMatrix Ry.crossMatrix (R • 1)).IsSymm :=
    updated_isSymm P.toMatrix_isSymm (isSymm_one.smul R)
  rw [updated, ← calcK_toMatrix h] at hsymm ⊢
  exact updateCov_toMatrix hsymm

/-- The covariance that `kalmanPropagate` stores is that of the matrix filter. -/
theorem propagateCov_toMatrix (dt : F) (sigma_w2 w : Vec F) (P : Sym F) :
    (propagateCov dt sigma_w2 w P).toMatrix =
      propagated P.toMatrix (transition dt w) (processNoise dt sigma_w2) := by
  have hnoise : (processNoise dt sigma_w2).IsSymm := (isSymm_diagonal _).smul dt
  have hF : transition dt w =
      !![1, dt * w.x2, -(dt * w.x1); -(dt * w.x2), 1, dt * w.x0; dt * w.x1, -(dt * w.x0), 1] := by
    ext i j
    fin_cases i <;> fin_cases j <;> simp [transition, Vec.crossMatrix]
  have hFt : (transition dt w)ᵀ =
      !![1, -(dt * w.x2), dt * w.x1; dt * w.x2, 1, -(dt * w.x0); -(dt * w.x1), dt * w.x0, 1] := by
    rw [hF]
    ext i j
    fin_cases i <;> fin_cases j <;> rfl
  refine Sym.toMatrix_eq _ (propagated_isSymm P.toMatrix_isSymm hnoise) ?_ ?_ ?_ ?_ ?_ ?_
  all_goals
    rw [propagated, hFt, hF, Sym.toMatrix, mul_fin_three, mul_fin_three]
    simp [propagateCov, processNoise]
    ring

/-- The expanded filter is the matrix filter. For every covariance, rotated vector and variance with
a determinant that is not zero, the residual's covariance, the gain and the covariance stored are
those of the matrices, and the covariance stored is symmetric as a product; a call of
`kalmanUpdate` stores and reports these for the vector it rotates. The same for a time step, for
every rate, sampling time and process noise. -/
theorem expanded_eq_matrix :
    (∀ (P : Sym F) (Ry : Vec F) (R : F), detPr (calcPr R (calcPHT P Ry) Ry) ≠ 0 →
      let H := Ry.crossMatrix
      let Pr := calcPr R (calcPHT P Ry) Ry
      let K := calcK (calcPHT P Ry) (invPr Pr)
      Pr.toMatrix = H * P.toMatrix * Hᵀ + R • 1 ∧
      K.toMatrix = P.toMatrix * Hᵀ * (H * P.toMatrix * Hᵀ + R • 1)⁻¹ ∧
      (updateCov P K Ry).toMatrix = (1 - K.toMatrix * H) * P.toMatrix ∧
      ((1 - K.toMatrix * H) * P.toMatrix).IsSymm) ∧
    (∀ (fns : MathFns F) (s : Filter F) (y_i y_b : Vec F) (R : F),
      let Ry := rotate s.m_q (y_i.normalize fns)
      let Pr := calcPr R (calcPHT s.m_P Ry) Ry
      (kalmanUpdate fns s y_i y_b R).pr = Pr ∧
      (kalmanUpdate fns s y_i y_b R).filter.m_P =
        updateCov s.m_P (calcK (calcPHT s.m_P Ry) (invPr Pr)) Ry) ∧
    (∀ (dt : F) (sigma_w2 w : Vec F) (P : Sym F),
      (propagateCov dt sigma_w2 w P).toMatrix =
        (1 - dt • w.crossMatrix) * P.toMatrix * (1 - dt • w.crossMatrix)ᵀ +
          dt • diagonal ![sigma_w2.x0, sigma_w2.x1, sigma_w2.x2]) ∧
    (∀ (fns : MathFns F) (s : Filter F),
      (kalmanPropagate fns s).m_P = propagateCov sampleTime sigma_w2 s.m_w s.m_P) := by
  refine ⟨fun P Ry R h => ⟨calcPr_toMatrix P R Ry, calcK_toMatrix h, ?_, ?_⟩,
    fun _ _ _ _ _ => ⟨rfl, rfl⟩, propagateCov_toMatrix, fun _ _ => rfl⟩
  · rw [updateCov_eq_updated h, calcK_toMatrix h, updated]
  · rw [calcK_toMatrix h]
    exact updated_isSymm P.toMatrix_isSymm (isSymm_one.smul R)

/-- At the identity, a vector along the third axis and unit variance the determinant is four, and
the gain computed is the matrix gain. -/
theorem expanded_eq_matrix_at_one :
    let P : Sym ℚ := ⟨1, 0, 0, 1, 0, 1⟩
    let Ry : Vec ℚ := ⟨0, 0, 1⟩
    detPr (calcPr 1 (calcPHT P Ry) Ry) = 4 ∧
      (calcK (calcPHT P Ry) (invPr (calcPr 1 (calcPHT P Ry) Ry))).toMatrix =
        P.toMatrix * Ry.crossMatrixᵀ *
          (Ry.crossMatrix * P.toMatrix * Ry.crossMatrixᵀ + (1 : ℚ) • 1)⁻¹ := by
  intro P Ry
  have hdet : detPr (calcPr 1 (calcPHT P Ry) Ry) = 4 := by norm_num [P, Ry, detPr, calcPr, calcPHT]
  exact ⟨hdet, (expanded_eq_matrix.1 P Ry 1 (by rw [hdet]; norm_num)).2.1⟩

end Matrices

/-! ## Runs -/

section Runs

variable {F : Type*} [Field F]

/-- What one call does to the covariance, with the vector or the rate that it does it for. -/
inductive CovCall (F : Type*) where
  /-- `kalmanPropagate` at the angular rate `w`. -/
  | propagate (w : Vec F)
  /-- `kalmanUpdate` with the variance `R` and the rotated vector `Ry`. -/
  | update (R : F) (Ry : Vec F)

/-- The determinant that an update divides by. -/
def updateDet (P : Sym F) (R : F) (Ry : Vec F) : F := detPr (calcPr R (calcPHT P Ry) Ry)

/-- The covariance after a call. -/
def CovCall.step (P : Sym F) : CovCall F → Sym F
  | .propagate w => propagateCov sampleTime sigma_w2 w P
  | .update R Ry => updateCov P (calcK (calcPHT P Ry) (invPr (calcPr R (calcPHT P Ry) Ry))) Ry

/-- The covariance after some calls on the constructor's. -/
def covAfter (calls : List (CovCall F)) : Sym F := calls.foldl CovCall.step initialFilter.m_P

/-- What can happen to the filter: a reading of the gyro, which sets the rate, or a call. -/
inductive FilterCall (F : Type*) where
  | omega (w : Vec F)
  | propagate
  | update (y_i y_b : Vec F) (R : F)

/-- The filter after a reading or a call. -/
def FilterCall.step (fns : MathFns F) (s : Filter F) : FilterCall F → Filter F
  | .omega w => { s with m_w := w }
  | .propagate => kalmanPropagate fns s
  | .update y_i y_b R => (kalmanUpdate fns s y_i y_b R).filter

/-- The filter after some readings and calls. -/
def filterAfter (fns : MathFns F) (calls : List (FilterCall F)) : Filter F :=
  calls.foldl (FilterCall.step fns) initialFilter

/-- Every run of the filter is one of the covariance alone, with the same variances. -/
theorem filterAfter_m_P (fns : MathFns F) (calls : List (FilterCall F)) :
    ∃ covCalls, (filterAfter fns calls).m_P = covAfter covCalls ∧
      ∀ R Ry, CovCall.update R Ry ∈ covCalls → ∃ y_i y_b, FilterCall.update y_i y_b R ∈ calls := by
  induction calls using List.reverseRecOn with
  | nil => exact ⟨[], rfl, by simp⟩
  | append_singleton calls call ih =>
    obtain ⟨covCalls, hP, hR⟩ := ih
    have hstep : filterAfter fns (calls ++ [call]) =
        FilterCall.step fns (filterAfter fns calls) call := by
      simp [filterAfter, List.foldl_append]
    rw [hstep]
    cases call with
    | omega w => exact ⟨covCalls, hP, fun R Ry h => by simpa using hR R Ry h⟩
    | propagate =>
      refine ⟨covCalls ++ [.propagate (filterAfter fns calls).m_w], ?_,
        fun R Ry h => by simpa using hR R Ry (by simpa using h)⟩
      simp [covAfter, List.foldl_append, CovCall.step, FilterCall.step, kalmanPropagate, hP]
    | update y_i y_b R =>
      refine ⟨covCalls ++ [.update R (rotate (filterAfter fns calls).m_q (y_i.normalize fns))],
        ?_, fun R' Ry h => ?_⟩
      · simp [covAfter, List.foldl_append, CovCall.step, FilterCall.step, kalmanUpdate, hP]
      · rcases List.mem_append.mp h with h | h
        · obtain ⟨y_i', y_b', hmem⟩ := hR R' Ry h
          exact ⟨y_i', y_b', List.mem_append_left _ hmem⟩
        · obtain ⟨rfl, -⟩ : R' = R ∧ Ry = _ := by simpa using h
          exact ⟨y_i, y_b, by simp⟩

end Runs

/-! ## The covariance stays valid -/

section Valid

/-- The determinant of a measurement with positive variance, on a valid covariance. -/
theorem updateDet_pos {P : Sym ℝ} (hP : P.toMatrix.PosSemidef) {R : ℝ} (hR : 0 < R)
    (Ry : Vec ℝ) : 0 < updateDet P R Ry := by
  have hnoise : (R • 1 : Matrix (Fin 3) (Fin 3) ℝ).PosDef := PosDef.one.smul hR
  rw [updateDet, detPr_eq_det, calcPr_toMatrix]
  exact (innovation_posDef hP hnoise).det_pos

/-- The constructor's covariance is valid. -/
theorem initial_posSemidef : (initialFilter : Filter ℝ).m_P.toMatrix.PosSemidef := by
  have hdiag : (initialFilter : Filter ℝ).m_P.toMatrix =
      diagonal fun _ => (3.046174197867086e-004 : ℝ) := by
    ext i j
    fin_cases i <;> fin_cases j <;> simp [initialFilter, Sym.toMatrix]
  rw [hdiag]
  exact PosSemidef.diagonal fun _ => by norm_num

/-- The process noise of the filter is positive semidefinite. -/
theorem processNoise_posSemidef : (processNoise sampleTime (sigma_w2 : Vec ℝ)).PosSemidef := by
  have hdiag : 0 ≤ ![(sigma_w2 : Vec ℝ).x0, (sigma_w2 : Vec ℝ).x1, (sigma_w2 : Vec ℝ).x2] := by
    intro i
    fin_cases i <;> norm_num [sigma_w2]
  exact (PosSemidef.diagonal hdiag).smul (by norm_num [sampleTime])

/-- A call whose variance, if it has one, is positive keeps the covariance valid. -/
theorem step_posSemidef {P : Sym ℝ} (hP : P.toMatrix.PosSemidef) {call : CovCall ℝ}
    (hR : ∀ R Ry, call = .update R Ry → 0 < R) : (CovCall.step P call).toMatrix.PosSemidef := by
  cases call with
  | propagate w =>
    rw [CovCall.step, propagateCov_toMatrix]
    exact propagated_posSemidef hP processNoise_posSemidef
  | update R Ry =>
    have hR := hR R Ry rfl
    rw [CovCall.step, updateCov_eq_updated (updateDet_pos hP hR Ry).ne']
    exact updated_posSemidef hP (PosDef.one.smul hR)

/-- The covariance is valid after every run of calls with positive variances. -/
theorem covAfter_posSemidef {calls : List (CovCall ℝ)}
    (hR : ∀ R Ry, CovCall.update R Ry ∈ calls → 0 < R) :
    (covAfter calls).toMatrix.PosSemidef := by
  induction calls using List.reverseRecOn with
  | nil => exact initial_posSemidef
  | append_singleton calls call ih =>
    have hstep : covAfter (calls ++ [call]) = CovCall.step (covAfter calls) call := by
      simp [covAfter, List.foldl_append]
    rw [hstep]
    exact step_posSemidef (ih fun R Ry h => hR R Ry (List.mem_append_left _ h))
      fun R Ry h => hR R Ry (by simp [h])

/-- In every run of calls with positive variances, with any rotated vectors and angular rates, the
covariance stays positive semidefinite and every determinant divided by is positive; and so in
every run of the filter itself, with any readings and any functions of the C library. -/
theorem covariance_valid :
    (∀ calls : List (CovCall ℝ), (∀ R Ry, CovCall.update R Ry ∈ calls → 0 < R) →
      (covAfter calls).toMatrix.PosSemidef ∧
      ∀ before R Ry after, calls = before ++ .update R Ry :: after →
        0 < updateDet (covAfter before) R Ry) ∧
    ∀ (fns : MathFns ℝ) (calls : List (FilterCall ℝ)),
      (∀ y_i y_b R, FilterCall.update y_i y_b R ∈ calls → 0 < R) →
      (filterAfter fns calls).m_P.toMatrix.PosSemidef ∧
      ∀ before y_i y_b R after, calls = before ++ .update y_i y_b R :: after →
        0 < detPr (kalmanUpdate fns (filterAfter fns before) y_i y_b R).pr := by
  refine ⟨fun calls hR => ⟨covAfter_posSemidef hR, ?_⟩, fun fns calls hR => ?_⟩
  · rintro before R Ry after rfl
    have hbefore : (covAfter before).toMatrix.PosSemidef :=
      covAfter_posSemidef fun R' Ry' h => hR R' Ry' (List.mem_append_left _ h)
    exact updateDet_pos hbefore (hR R Ry (by simp)) Ry
  · -- every prefix of the run is a run of the covariance alone
    have hvalid : ∀ before : List (FilterCall ℝ), (∀ call ∈ before, call ∈ calls) →
        (filterAfter fns before).m_P.toMatrix.PosSemidef := by
      intro before hsub
      obtain ⟨covCalls, hP, hpos⟩ := filterAfter_m_P fns before
      rw [hP]
      refine covAfter_posSemidef fun R Ry h => ?_
      obtain ⟨y_i, y_b, hmem⟩ := hpos R Ry h
      exact hR y_i y_b R (hsub _ hmem)
    refine ⟨hvalid calls fun _ h => h, ?_⟩
    rintro before y_i y_b R after rfl
    exact updateDet_pos (hvalid before fun call h => List.mem_append_left _ h)
      (hR y_i y_b R (by simp)) _

/-- A time step and a measurement: the variance is positive, so the determinant of the measurement
is. -/
theorem covariance_valid_of_step_and_measurement :
    0 < updateDet (covAfter [.propagate ⟨1, 0, 0⟩]) (1 : ℝ) ⟨0, 0, 1⟩ :=
  (covariance_valid.1 [.propagate ⟨1, 0, 0⟩, .update 1 ⟨0, 0, 1⟩] fun R Ry h => by
    obtain ⟨rfl, -⟩ : R = 1 ∧ Ry = _ := by simpa using h
    exact one_pos).2 [.propagate ⟨1, 0, 0⟩] 1 ⟨0, 0, 1⟩ [] rfl

end Valid

end Guillemot.Attitude
