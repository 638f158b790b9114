import Mathlib.Order.Nat
import Mathlib.Tactic.Common
import Mathlib.Tactic.SplitIfs

/-!
# Outages that are reported once

Something is expected from time to time, and when it stays out for longer than `timeout`, this is to
be reported once. `Outage` is the plain way to do it: the time when it came last, and whether its
absence has been reported since. It takes two variables.

One is enough on a clock that stays away from its end: once the absence is reported, the time is
replaced by a marker so late that a clock below the modulus never passes it by the timeout
(`Encodes`). A test of the one variable comes out as one of the two does (`Encodes.due_iff`).
-/

namespace Guillemot

/-- When something came last, and whether its absence has been reported since. -/
structure Outage where
  since : ℕ
  reported : Bool
deriving DecidableEq, Repr

namespace Outage

variable (timeout : ℕ)

/-- The absence is to be reported. -/
def Due (o : Outage) (now : ℕ) : Prop := o.since + timeout < now ∧ o.reported = false

instance (o : Outage) (now : ℕ) : Decidable (o.Due timeout now) :=
  inferInstanceAs (Decidable (_ ∧ _))

end Outage

/-- A cell holds the time of the last arrival, or the marker when the absence has been reported.
Neither wraps around when the timeout is added. -/
structure Encodes (modulus timeout : ℕ) (cell : ℕ) (o : Outage) : Prop where
  early : o.since + timeout < modulus
  cell_eq : cell = if o.reported then modulus - 1 - timeout else o.since

namespace Encodes

variable {modulus timeout cell now : ℕ} {o : Outage}

/-- An arrival. -/
theorem arrival (hnow : now + timeout < modulus) : Encodes modulus timeout now ⟨now, false⟩ :=
  ⟨hnow, rfl⟩

/-- The sum of the cell and the timeout is passed exactly when the absence is to be reported. -/
theorem due_iff (h : Encodes modulus timeout cell o) (hnow : now < modulus) :
    (cell + timeout) % modulus < now ↔ o.Due timeout now := by
  obtain ⟨hearly, rfl⟩ := h
  unfold Outage.Due
  split_ifs with hreported
  · -- The marker is as late as it can be.
    have hsum : modulus - 1 - timeout + timeout = modulus - 1 := by omega
    rw [hsum, Nat.mod_eq_of_lt (by omega), hreported]
    exact iff_of_false (by omega) fun hdue => absurd hdue.2 (by decide)
  · rw [Nat.mod_eq_of_lt hearly, and_iff_left (Bool.eq_false_iff.mpr hreported)]

/-- A report, which leaves the marker. -/
theorem reported (h : Encodes modulus timeout cell o) :
    Encodes modulus timeout (modulus - 1 - timeout) { o with reported := true } :=
  ⟨h.early, rfl⟩

end Encodes

end Guillemot
