import Guillemot.Library.Refresh
import Guillemot.Sensor.Measurement

/-!
# What the sensor controller publishes

The loop of `main` in `SubSensorController.cpp`: every line that is read may change what is
published on six topics, each with its own timer of one second. A topic is a `Refresher`; its times
are in microseconds, and a line may look at the clock twice for each topic.

Whatever bytes arrive, every topic shows what was read, without repetitions that come too soon, and
behind each line that was read its numbers are the last ones published on all topics, within the
second before it (`main_follows`).
-/

namespace Guillemot.Sensor

open Refresher (changes)

/-- One second, as `timer::start(1, 0)` sets it, in microseconds. -/
def second : ℕ := 1000000

/-- The times that a topic reads for a line: in `isTimeout`, and in `start`. -/
structure Looks where
  checked : ℕ
  started : ℕ

/-- The times that a line reads, for each topic. -/
structure Times where
  temp : Looks
  motor : Looks
  current : Looks
  pressure : Looks
  water : Looks
  dropper : Looks

/-- The clock is not set back between the two looks at it. -/
def Times.Ordered (t : Times) : Prop :=
  t.temp.checked ≤ t.temp.started ∧ t.motor.checked ≤ t.motor.started ∧
    t.current.checked ≤ t.current.started ∧ t.pressure.checked ≤ t.pressure.started ∧
    t.water.checked ≤ t.water.started ∧ t.dropper.checked ≤ t.dropper.started

instance (t : Times) : Decidable t.Ordered := inferInstanceAs (Decidable (_ ∧ _))

/-- The times when the timers are started in front of the loop. -/
structure Starts where
  temp : ℕ
  pressure : ℕ
  motor : ℕ
  current : ℕ
  water : ℕ
  dropper : ℕ

/-- The topics: `Controller_Box_Temp`, `Motor_State`, `Computer_Cur_Volt`, `Pressure_Data`,
`Water_Detected` and `Dropper_States`, by the values of the variables that are published. -/
structure Topics (F : Type*) where
  temp : Refresher (F × F × F)
  motor : Refresher ℤ
  current : Refresher (F × F)
  pressure : Refresher F
  water : Refresher ℤ
  dropper : Refresher (ℤ × ℤ)

section Topics

variable {F : Type*} [DecidableEq F] (toFloat : ℚ → F)

/-- The variables and timers in front of the loop. `waterDetected` is not set. -/
def Topics.init (waterDetected : ℤ) (starts : Starts) : Topics F where
  temp := .start second (toFloat 0, toFloat 0, toFloat 0) starts.temp
  motor := .start second 0 starts.motor
  current := .start second (toFloat 0, toFloat 0) starts.current
  pressure := .start second (toFloat 0) starts.pressure
  water := .start second waterDetected starts.water
  dropper := .start second (0, 0) starts.dropper

/-- The six comparisons of a line with what was published. -/
def Topics.publish (t : Topics F) (n : Numbers F) (times : Times) : Topics F where
  temp := t.temp.call second ⟨n.temp, times.temp.checked, times.temp.started⟩
  motor := t.motor.call second ⟨n.motorKilled, times.motor.checked, times.motor.started⟩
  current := t.current.call second ⟨n.curVolt, times.current.checked, times.current.started⟩
  pressure := t.pressure.call second ⟨n.pressure, times.pressure.checked, times.pressure.started⟩
  water := t.water.call second ⟨n.waterDetected, times.water.checked, times.water.started⟩
  dropper := t.dropper.call second ⟨n.dropper, times.dropper.checked, times.dropper.started⟩

/-- A round of the loop, with the line that `getTTYLine` returns. -/
def Topics.round (t : Topics F) (line : List UInt8) (times : Times) : Topics F :=
  match readLine toFloat line with
  | some n => t.publish n times
  | none => t

/-- The loop of `main`: some rounds, one after the other. -/
def Topics.main (t : Topics F) (rounds : List (Reading × Times)) : Topics F :=
  rounds.foldl (fun t round => t.round toFloat round.1.line round.2) t

/-! ## One topic -/

omit [DecidableEq F] in
/-- What is read in some rounds, with the times. -/
def heard (rounds : List (Reading × Times)) : List (Numbers F × Times) :=
  rounds.filterMap fun round => (readLine toFloat round.1.line).map fun n => (n, round.2)

/-- What a topic published, from a value on that counts as published at a time, follows what was
read. -/
structure Follows {α : Type*} [DecidableEq α] (select : Numbers F → α) (looks : Times → Looks)
    (x : α) (now : ℕ) (read : List (Numbers F × Times)) (r : Refresher α) : Prop where
  /-- But for repetitions, the values that were read were published. -/
  changes : changes ((r.log x now).map Prod.fst) = changes (x :: read.map fun h => select h.1)
  /-- A value is not repeated within a second. -/
  spaced : (r.log x now).IsChain fun p q => p.1 ≠ q.1 ∨ p.2 + second ≤ q.2
  /-- The last value that was read is the last one published, within the second before it. -/
  fresh : ∀ h ∈ read.getLast?, ∃ before last,
    r.log x now = before ++ [(select h.1, last)] ∧ (looks h.2).checked < last + second

omit [DecidableEq F] in
/-- The values that were published, by the numbers that were read. -/
theorem Follows.changes_map {α : Type*} [DecidableEq α] {select : Numbers F → α}
    {looks : Times → Looks} {x : α} {now : ℕ} {read : List (Numbers F × Times)} {r : Refresher α}
    (h : Follows select looks x now read r) :
    Refresher.changes ((r.log x now).map Prod.fst) =
      Refresher.changes (x :: (read.map Prod.fst).map select) := by
  rw [h.changes, List.map_map]
  rfl

variable {toFloat}

/-- A topic is a publisher that is called with what was read. -/
theorem main_topic {α : Type*} [DecidableEq α] (get : Topics F → Refresher α)
    (select : Numbers F → α) (looks : Times → Looks)
    (hpublish : ∀ t n times, get (t.publish n times) =
      (get t).call second ⟨select n, (looks times).checked, (looks times).started⟩)
    (t : Topics F) (rounds : List (Reading × Times)) :
    get (t.main toFloat rounds) = (get t).run second ((heard toFloat rounds).map fun h =>
      ⟨select h.1, (looks h.2).checked, (looks h.2).started⟩) := by
  induction rounds generalizing t with
  | nil => rfl
  | cons round rounds ih =>
    have hmain : t.main toFloat (round :: rounds) =
        (t.round toFloat round.1.line round.2).main toFloat rounds := rfl
    have hheard : heard toFloat (round :: rounds) =
        ((readLine toFloat round.1.line).map fun n => (n, round.2)).toList ++
          heard toFloat rounds := by
      unfold heard
      rw [List.filterMap_cons]
      cases readLine toFloat round.1.line <;> rfl
    rw [hmain, ih, hheard, Topics.round]
    cases readLine toFloat round.1.line with
    | none => rfl
    | some n =>
      dsimp only
      rw [hpublish]
      rfl

theorem follows_topic {α : Type*} [DecidableEq α] (get : Topics F → Refresher α)
    (select : Numbers F → α) (looks : Times → Looks)
    (hpublish : ∀ t n times, get (t.publish n times) =
      (get t).call second ⟨select n, (looks times).checked, (looks times).started⟩)
    {t : Topics F} {x : α} {now : ℕ} (ht : get t = .start second x now)
    {rounds : List (Reading × Times)}
    (hclock : ∀ round ∈ rounds, (looks round.2).checked ≤ (looks round.2).started) :
    Follows select looks x now (heard toFloat rounds) (get (t.main toFloat rounds)) := by
  have hheard : ∀ h ∈ heard toFloat rounds, (looks h.2).checked ≤ (looks h.2).started := by
    intro h hmem
    obtain ⟨round, hround, hsome⟩ := List.mem_filterMap.mp hmem
    obtain ⟨n, -, rfl⟩ := Option.map_eq_some_iff.mp hsome
    exact hclock round hround
  rw [main_topic get select looks hpublish, ht]
  obtain ⟨hchanges, hspaced, hfresh⟩ := Refresher.run_spec (show 0 < second by decide) x now
    ((heard toFloat rounds).map fun h => ⟨select h.1, (looks h.2).checked, (looks h.2).started⟩)
    fun c hc => by
      obtain ⟨h, hmem, rfl⟩ := List.mem_map.mp hc
      exact hheard h hmem
  rw [List.map_map] at hchanges
  refine ⟨hchanges, hspaced, fun h hlast => ?_⟩
  refine hfresh ⟨select h.1, (looks h.2).checked, (looks h.2).started⟩ ?_
  rw [List.getLast?_map, Option.mem_def.mp hlast]
  rfl

end Topics

/-! ## All topics -/

/-- All topics follow what was read. -/
structure Follow {F : Type*} [DecidableEq F] (toFloat : ℚ → F) (waterDetected : ℤ)
    (starts : Starts) (read : List (Numbers F × Times)) (t : Topics F) : Prop where
  temp : Follows Numbers.temp Times.temp (toFloat 0, toFloat 0, toFloat 0) starts.temp read t.temp
  motor : Follows Numbers.motorKilled Times.motor 0 starts.motor read t.motor
  current : Follows Numbers.curVolt Times.current (toFloat 0, toFloat 0) starts.current read
    t.current
  pressure : Follows Numbers.pressure Times.pressure (toFloat 0) starts.pressure read t.pressure
  water : Follows Numbers.waterDetected Times.water waterDetected starts.water read t.water
  dropper : Follows Numbers.dropper Times.dropper (0, 0) starts.dropper read t.dropper

theorem follow_rounds {F : Type*} [DecidableEq F] (toFloat : ℚ → F) (waterDetected : ℤ)
    (starts : Starts) {rounds : List (Reading × Times)}
    (hclock : ∀ round ∈ rounds, round.2.Ordered) :
    Follow toFloat waterDetected starts (heard toFloat rounds)
      ((Topics.init toFloat waterDetected starts).main toFloat rounds) where
  temp := follows_topic Topics.temp _ _ (fun _ _ _ => rfl) rfl fun r hr => (hclock r hr).1
  motor := follows_topic Topics.motor _ _ (fun _ _ _ => rfl) rfl fun r hr => (hclock r hr).2.1
  current := follows_topic Topics.current _ _ (fun _ _ _ => rfl) rfl
    fun r hr => (hclock r hr).2.2.1
  pressure := follows_topic Topics.pressure _ _ (fun _ _ _ => rfl) rfl
    fun r hr => (hclock r hr).2.2.2.1
  water := follows_topic Topics.water _ _ (fun _ _ _ => rfl) rfl
    fun r hr => (hclock r hr).2.2.2.2.1
  dropper := follows_topic Topics.dropper _ _ (fun _ _ _ => rfl) rfl
    fun r hr => (hclock r hr).2.2.2.2.2

/-- The rounds of a session have times in order. -/
theorem ordered_zip {rs : List Reading} {times : List Times} (hclock : ∀ t ∈ times, t.Ordered) :
    ∀ round ∈ rs.zip times, round.2.Ordered :=
  fun round hround => hclock round.2 (List.of_mem_zip hround).2

/-- Whatever arrives at the controller, every topic follows what was read. -/
theorem main_follows {F : Type*} [DecidableEq F] (toFloat : ℚ → F) (waterDetected : ℤ)
    (starts : Starts) (junks : List UInt8) (es : List Event) (times : List Times)
    (hclock : ∀ t ∈ times, t.Ordered) :
    Follow toFloat waterDetected starts (heard toFloat ((session junks [] es).zip times))
      ((Topics.init toFloat waterDetected starts).main toFloat
        ((session junks [] es).zip times)) :=
  follow_rounds toFloat waterDetected starts (ordered_zip hclock)

/-- A measurement: 71.5 degrees, the motors killed, 12 volts, half an ampere, a depth of 290, no
water, and both droppers set. -/
def oneMeasurement : Measurement :=
  ⟨⟨false, 7150⟩, ⟨false, 7150⟩, ⟨false, 7150⟩, 1, ⟨false, 1200⟩, ⟨false, 50⟩, ⟨false, 29000⟩, 0,
    1, 1⟩

/-- Times that do not matter. -/
def someTimes : Times := ⟨⟨5, 6⟩, ⟨5, 6⟩, ⟨5, 6⟩, ⟨5, 6⟩, ⟨5, 6⟩, ⟨5, 6⟩⟩

/-- That the motors are killed is published for one line. -/
theorem main_follows_one :
    let t := (Topics.init id 0 ⟨0, 0, 0, 0, 0, 0⟩).main id
      ((session [0] [] (stream [([], oneMeasurement)])).zip [someTimes])
    changes ((t.motor.log 0 0).map Prod.fst) = [0, 1] := by
  have hfollow := main_follows id 0 ⟨0, 0, 0, 0, 0, 0⟩ [0] (stream [([], oneMeasurement)])
    [someTimes] (by decide)
  exact hfollow.motor.changes.trans (by decide +kernel)

/-! ## The measurements of the board -/

/-- There are not more calls than that. -/
theorem length_session (junks before : List UInt8) (es : List Event) :
    (session junks before es).length ≤ junks.length := by
  induction junks generalizing before es with
  | nil => exact Nat.le_refl 0
  | cons junk junks ih =>
    rw [session]
    cases getTTYLine junk [] es with
    | none => exact Nat.zero_le _
    | some called => exact Nat.succ_le_succ (ih _ _)

/-- What is read in some rounds, without the times. -/
theorem heard_numbers {F : Type*} (toFloat : ℚ → F) {rs : List Reading} {times : List Times}
    (h : rs.length ≤ times.length) :
    (heard toFloat (rs.zip times)).map Prod.fst = received toFloat rs := by
  induction rs generalizing times with
  | nil => rfl
  | cons r rs ih =>
    cases times with
    | nil => cases h
    | cons time times =>
      have hrest := ih (Nat.le_of_succ_le_succ h)
      rw [received_cons, ← hrest, heard, List.zip_cons_cons, List.filterMap_cons]
      cases readLine toFloat r.line <;> rfl

/-- The measurements that the board prints are what the topics show, but for repetitions, whatever
the controller is told between the lines, once it has called `getTTYLine` for each byte and for each
other event. -/
theorem stream_published {F : Type*} [DecidableEq F] (toFloat : ℚ → F) (waterDetected : ℤ)
    (starts : Starts) (sent : List (List Event × Measurement))
    (hidle : ∀ p ∈ sent, ∀ e ∈ p.1, Idle e) (junks : List UInt8)
    (hcalls : (stream sent).length ≤ (junks.filter (· ≠ newline)).length) (times : List Times)
    (hclock : ∀ t ∈ times, t.Ordered) (hrounds : junks.length ≤ times.length) :
    let t := (Topics.init toFloat waterDetected starts).main toFloat
      ((session junks [] (stream sent)).zip times)
    let numbers := sent.map fun p => p.2.numbers toFloat
    let zero := toFloat 0
    changes ((t.temp.log (zero, zero, zero) starts.temp).map Prod.fst) =
        changes ((zero, zero, zero) :: numbers.map Numbers.temp) ∧
      changes ((t.motor.log 0 starts.motor).map Prod.fst) =
        changes (0 :: numbers.map Numbers.motorKilled) ∧
      changes ((t.current.log (zero, zero) starts.current).map Prod.fst) =
        changes ((zero, zero) :: numbers.map Numbers.curVolt) ∧
      changes ((t.pressure.log zero starts.pressure).map Prod.fst) =
        changes (zero :: numbers.map Numbers.pressure) ∧
      changes ((t.water.log waterDetected starts.water).map Prod.fst) =
        changes (waterDetected :: numbers.map Numbers.waterDetected) ∧
      changes ((t.dropper.log (0, 0) starts.dropper).map Prod.fst) =
        changes ((0, 0) :: numbers.map Numbers.dropper) := by
  have hordered : ∀ round ∈ (session junks [] (stream sent)).zip times, round.2.Ordered :=
    ordered_zip hclock
  obtain ⟨htemp, hmotor, hcurrent, hpressure, hwater, hdropper⟩ :=
    follow_rounds toFloat waterDetected starts hordered
  have hread : (heard toFloat ((session junks [] (stream sent)).zip times)).map Prod.fst =
      sent.map fun p => p.2.numbers toFloat := by
    rw [heard_numbers toFloat (Nat.le_trans (length_session junks [] _) hrounds),
      received_stream toFloat sent hidle junks hcalls, List.map_map]
    rfl
  dsimp only
  rw [← hread]
  exact ⟨htemp.changes_map, hmotor.changes_map, hcurrent.changes_map, hpressure.changes_map,
    hwater.changes_map, hdropper.changes_map⟩

/-- Two lines, with a timeout in front of one of them. -/
theorem stream_published_two :
    let t := (Topics.init id 7 ⟨0, 0, 0, 0, 0, 0⟩).main id ((session (List.replicate 200 0) []
      (stream [([], oneMeasurement), ([.timeout], oneMeasurement)])).zip
        (List.replicate 200 someTimes))
    changes ((t.motor.log 0 0).map Prod.fst) = [0, 1] ∧
      changes ((t.water.log 7 0).map Prod.fst) = [7, 0] := by
  have hidle : ∀ p ∈ [([], oneMeasurement), ([Event.timeout], oneMeasurement)], ∀ e ∈ p.1,
      Idle e := by
    simp [Idle]
  obtain ⟨-, hmotor, -, -, hwater, -⟩ := stream_published id 7 ⟨0, 0, 0, 0, 0, 0⟩
    [([], oneMeasurement), ([.timeout], oneMeasurement)] hidle (List.replicate 200 0)
    (by decide +kernel) (List.replicate 200 someTimes) (by decide +kernel) (by decide +kernel)
  exact ⟨hmotor, hwater⟩

end Guillemot.Sensor
