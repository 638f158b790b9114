import Mathlib.Order.Nat

/-!
# Watchdogs on a counter that wraps around

A watchdog notes the time when it is fed and compares it with the time of every test; when the time
in between is longer than its period, it trips, and notes the time anew. It reads its times from a
counter modulo `modulus`, so that it sees every time in between modulo `modulus` too (`elapsed`).

It never trips too early (`Watchdog.lt_of_expires`). It does not trip too late either if the tests
are close enough to each other, although the time since it was fed grows without bound: once it has
tripped, it stays so until it is fed, and until it trips the time in between does not wrap around
(`Watchdog.Sound.test_tripped`).
-/

namespace Guillemot

/-- The time from `since` to `now` on a counter. -/
def elapsed (modulus since now : ℕ) : ℕ := (now - since) % modulus

theorem elapsed_le (modulus since now : ℕ) : elapsed modulus since now ≤ now - since :=
  Nat.mod_le _ _

theorem elapsed_of_lt {modulus since now : ℕ} (h : now - since < modulus) :
    elapsed modulus since now = now - since :=
  Nat.mod_eq_of_lt h

/-- A watchdog, with its times on a clock that does not wrap around. -/
structure Watchdog where
  /-- When it was fed. -/
  fed : ℕ
  /-- The time that it compares with. -/
  noted : ℕ
  /-- When it was tested. -/
  tested : ℕ
  /-- It has tripped since it was fed. -/
  tripped : Bool

namespace Watchdog

variable (modulus period : ℕ)

/-- A watchdog that starts is fed. -/
def start (now : ℕ) : Watchdog := ⟨now, now, now, false⟩

/-- Feeding. -/
def feed (w : Watchdog) (now : ℕ) : Watchdog := ⟨now, now, w.tested, false⟩

/-- A test trips it. -/
def Expires (w : Watchdog) (now : ℕ) : Prop := period < elapsed modulus w.noted now

instance (w : Watchdog) (now : ℕ) : Decidable (w.Expires modulus period now) :=
  inferInstanceAs (Decidable (_ < _))

/-- A test at the time `now`; when it trips, the time that is noted anew is `restart`. -/
def test (w : Watchdog) (now restart : ℕ) : Watchdog :=
  if w.Expires modulus period now then ⟨w.fed, restart, now, true⟩
  else ⟨w.fed, w.noted, now, w.tripped⟩

/-- The times are in order, and until it trips the watchdog compares with the time when it was fed,
which its tests have found to be no longer ago than the period. -/
structure Sound (w : Watchdog) (now : ℕ) : Prop where
  fed_le : w.fed ≤ w.noted
  noted_le : w.noted ≤ now
  tested_le : w.tested ≤ now
  recent : w.tripped = false → w.noted = w.fed ∧ w.tested ≤ w.fed + period

theorem sound_start (now : ℕ) : (start now).Sound period now :=
  ⟨le_rfl, le_rfl, le_rfl, fun _ => ⟨rfl, Nat.le_add_right _ _⟩⟩

variable {modulus period}

@[simp]
theorem test_fed (w : Watchdog) (now restart : ℕ) :
    (w.test modulus period now restart).fed = w.fed := by
  unfold test
  split_ifs <;> rfl

@[simp]
theorem test_tested (w : Watchdog) (now restart : ℕ) :
    (w.test modulus period now restart).tested = now := by
  unfold test
  split_ifs <;> rfl

/-- Time passes. -/
theorem Sound.mono {w : Watchdog} {now now' : ℕ} (hw : w.Sound period now) (h : now ≤ now') :
    w.Sound period now' :=
  ⟨hw.fed_le, hw.noted_le.trans h, hw.tested_le.trans h, hw.recent⟩

theorem Sound.feed {w : Watchdog} {now : ℕ} (hw : w.Sound period now) :
    (w.feed now).Sound period now where
  fed_le := le_rfl
  noted_le := le_rfl
  tested_le := hw.tested_le
  recent _ := ⟨rfl, hw.tested_le.trans (Nat.le_add_right _ _)⟩

/-- It trips only after its period. -/
theorem lt_of_expires {w : Watchdog} {now now' : ℕ} (hw : w.Sound period now)
    (h : w.Expires modulus period now') : w.fed + period < now' := by
  have hle : elapsed modulus w.noted now' ≤ now' - w.noted := elapsed_le _ _ _
  have hfed := hw.fed_le
  unfold Expires at h
  omega

/-- It has not tripped, and a test that is close to the one before it does not trip it: the period
is not over. -/
theorem Sound.le_of_not_expires {w : Watchdog} {now gap : ℕ} (hw : w.Sound period now)
    (hgap : period + gap ≤ modulus) (hnow : now < w.tested + gap) (htripped : w.tripped = false)
    (h : ¬ w.Expires modulus period now) : now ≤ w.fed + period := by
  obtain ⟨hnoted, htested⟩ := hw.recent htripped
  have hordered := hw.tested_le
  -- The time since it was fed does not wrap around.
  have helapsed : elapsed modulus w.noted now = now - w.noted := elapsed_of_lt (by omega)
  rw [Expires, helapsed, hnoted] at h
  omega

/-- A test keeps the watchdog sound. -/
theorem Sound.test {w : Watchdog} {now restart gap : ℕ} (hw : w.Sound period now)
    (hgap : period + gap ≤ modulus) (hnow : now < w.tested + gap) (hrestart : now ≤ restart) :
    (w.test modulus period now restart).Sound period restart := by
  unfold Watchdog.test
  split_ifs with hexpires
  · exact ⟨(hw.fed_le.trans hw.noted_le).trans hrestart, le_rfl, hrestart, nofun⟩
  · exact ⟨hw.fed_le, hw.noted_le.trans hrestart, hrestart, fun htripped =>
      ⟨(hw.recent htripped).1, hw.le_of_not_expires hgap hnow htripped hexpires⟩⟩

/-- After a test that comes later than the period, it has tripped. -/
theorem Sound.test_tripped {w : Watchdog} {now restart gap : ℕ} (hw : w.Sound period now)
    (hgap : period + gap ≤ modulus) (hnow : now < w.tested + gap) (hlate : w.fed + period < now) :
    (w.test modulus period now restart).tripped = true := by
  unfold Watchdog.test
  split_ifs with hexpires
  · rfl
  · by_contra htripped
    have hle := hw.le_of_not_expires hgap hnow (Bool.not_eq_true _ ▸ htripped) hexpires
    omega

end Watchdog

end Guillemot
