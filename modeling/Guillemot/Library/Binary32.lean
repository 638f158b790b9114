import Mathlib.Data.Nat.Log
import Mathlib.Tactic.Common
import Mathlib.Tactic.NormNum
import Mathlib.Tactic.Ring

/-!
# Natural numbers as floats of 32 bits

`Binary32.ofNat` is the bit pattern of the float nearest to a natural number, with ties to the even
one. The exponent of the float is that of the power of two below the number, and its significand the
number divided by a power of two, rounded (`divNearest_spec`); so the pattern lies between those of
the powers of two around the number (`ofNat_bounds`).
-/

namespace Guillemot

namespace Binary32

/-- `n / d`, rounded to the nearest number, and to the even one of two. -/
def divNearest (n d : ℕ) : ℕ :=
  if 2 * (n % d) < d then n / d
  else if d < 2 * (n % d) then n / d + 1
  else n / d + n / d % 2

/-- The significand of a number, with its leading bit, in 24 bits or `2 ^ 24`. -/
def significand (n : ℕ) : ℕ :=
  if Nat.log 2 n ≤ 23 then n * 2 ^ (23 - Nat.log 2 n)
  else divNearest n (2 ^ (Nat.log 2 n - 23))

/-- The pattern of the float. The leading bit of the significand is added to the exponent, and so
is a carry from its rounding. -/
def ofNat (n : ℕ) : ℕ := if n = 0 then 0 else 2 ^ 23 * (126 + Nat.log 2 n) + significand n

/-- A rounded quotient is at most one half away. -/
theorem divNearest_spec (n : ℕ) {d : ℕ} (hd : 0 < d) :
    2 * n ≤ d * (2 * divNearest n d + 1) ∧ 2 * (d * divNearest n d) ≤ 2 * n + d := by
  have hdiv := Nat.div_add_mod n d
  have hmod := Nat.mod_lt n hd
  unfold divNearest
  generalize n / d = q at *
  generalize n % d = r at *
  subst hdiv
  split_ifs with hlow hhigh
  · constructor
    · calc 2 * (d * q + r) = d * (2 * q) + 2 * r := by ring
        _ ≤ d * (2 * q) + d := by omega
        _ = d * (2 * q + 1) := by ring
    · omega
  · constructor
    · calc 2 * (d * q + r) = d * (2 * q) + 2 * r := by ring
        _ ≤ d * (2 * q) + d * 3 := by omega
        _ = d * (2 * (q + 1) + 1) := by ring
    · calc 2 * (d * (q + 1)) = 2 * (d * q) + 2 * d := by ring
        _ ≤ 2 * (d * q + r) + d := by omega
  · -- A tie goes to `q` or to the number above it.
    have htie : 2 * r = d := by omega
    have hparity : q % 2 ≤ 1 := by omega
    constructor
    · calc 2 * (d * q + r) = d * (2 * q + 1) := by rw [← htie]; ring
        _ ≤ d * (2 * (q + q % 2) + 1) := Nat.mul_le_mul_left d (by omega)
    · calc 2 * (d * (q + q % 2)) ≤ 2 * (d * (q + 1)) :=
            Nat.mul_le_mul_left 2 (Nat.mul_le_mul_left d (by omega))
        _ = 2 * (d * q + r) + d := by rw [← htie]; ring

/-- The significand fills its 24 bits. -/
theorem significand_bounds {n : ℕ} (hn : n ≠ 0) :
    2 ^ 23 ≤ significand n ∧ significand n ≤ 2 ^ 24 := by
  have hlow := Nat.pow_log_le_self 2 hn
  have hhigh := Nat.lt_pow_succ_log_self (by norm_num : 1 < 2) n
  unfold significand
  generalize Nat.log 2 n = e at *
  split_ifs with he
  · have hpow : 0 < 2 ^ (23 - e) := by positivity
    constructor
    · calc 2 ^ 23 = 2 ^ e * 2 ^ (23 - e) := by rw [← pow_add, Nat.add_sub_cancel' he]
        _ ≤ n * 2 ^ (23 - e) := Nat.mul_le_mul_right _ hlow
    · calc n * 2 ^ (23 - e) ≤ 2 ^ (e + 1) * 2 ^ (23 - e) := Nat.mul_le_mul_right _ hhigh.le
        _ = 2 ^ 24 := by rw [← pow_add]; congr 1; omega
  · -- The number lies between `2 ^ 23` and `2 ^ 24` times the divisor.
    obtain ⟨k, rfl⟩ : ∃ k, e = 23 + k := ⟨e - 23, by omega⟩
    rw [Nat.add_sub_cancel_left]
    rw [pow_add] at hlow
    rw [show (23 + k).succ = 24 + k by omega, pow_add] at hhigh
    have hpow : 0 < 2 ^ k := by positivity
    obtain ⟨hup, hdown⟩ := divNearest_spec n hpow
    generalize divNearest n (2 ^ k) = q at *
    generalize 2 ^ k = d at *
    constructor
    · have h1 : d * 2 ^ 24 ≤ d * (2 * q + 1) := by
        calc d * 2 ^ 24 = 2 * (2 ^ 23 * d) := by ring
          _ ≤ 2 * n := Nat.mul_le_mul_left 2 hlow
          _ ≤ d * (2 * q + 1) := hup
      have h2 := Nat.le_of_mul_le_mul_left h1 hpow
      omega
    · have h1 : d * (2 * q) < d * (2 ^ 25 + 1) := by
        calc d * (2 * q) = 2 * (d * q) := by ring
          _ ≤ 2 * n + d := hdown
          _ < 2 * (2 ^ 24 * d) + d := by omega
          _ = d * (2 ^ 25 + 1) := by ring
      have h2 := Nat.lt_of_mul_lt_mul_left h1
      omega

/-- The pattern lies between those of the powers of two around the number. -/
theorem ofNat_bounds {n : ℕ} (hn : n ≠ 0) :
    2 ^ 23 * (127 + Nat.log 2 n) ≤ ofNat n ∧ ofNat n ≤ 2 ^ 23 * (128 + Nat.log 2 n) := by
  obtain ⟨hlow, hhigh⟩ := significand_bounds hn
  rw [ofNat, if_neg hn]
  omega

/-- From `2 ^ 24` on, the pattern holds the number divided by a power of two, rounded. -/
theorem ofNat_of_log {n k : ℕ} (hn : n ≠ 0) (hk : Nat.log 2 n = 24 + k) :
    ofNat n = 2 ^ 23 * (150 + k) + divNearest n (2 ^ (k + 1)) := by
  have he : ¬ 24 + k ≤ 23 := by omega
  rw [ofNat, if_neg hn, significand, hk, if_neg he, show 24 + k - 23 = k + 1 by omega]
  omega

end Binary32

end Guillemot
