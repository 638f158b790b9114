import Guillemot.Library.Log
import Mathlib.Data.UInt

/-!
# The firmware for commands from ROS

`WildThumperControllerRos.pde`. `executeMotors` takes the variable `lMotorA` for the pin `LmotorA`,
so it writes the pin whose number is the speed; and `loop` names `executeMotors` for the heartbeat,
but does not call it. As long as `lMotorA` is 3 at each message, the two pins are the same
(`follows_iff`), and as long as no message has come, all outputs are 0 anyway. `obeys_iff` says that
the firmware obeys its commands and its heartbeat in just those runs in which nothing else happens.

The `int` of the board has 16 bits. The counter has no word length here: whether a run obeys is
decided in the first round beyond `HEARTBEAT`, long before a `long int` overflows.
-/

namespace Guillemot.Motor

/-- A call of `analogWrite`. -/
structure Write where
  pin : UInt8
  value : UInt8
deriving DecidableEq, Repr

/-- Some calls of `analogWrite`, one after the other, on the outputs of all pins. -/
def analogWrites (pins : UInt8 → UInt8) (writes : List Write) : UInt8 → UInt8 :=
  writes.foldl (fun pins w => Function.update pins w.pin w.value) pins

/-- The pins of the H bridges. -/
inductive MotorPin where
  | LmotorA
  | LmotorB
  | RmotorA
  | RmotorB
deriving DecidableEq, Repr

/-- Their numbers. -/
def MotorPin.number : MotorPin → UInt8
  | LmotorA => 3
  | LmotorB => 11
  | RmotorA => 5
  | RmotorB => 6

/-- The bit of a command that addresses the motor of a pin. -/
def MotorPin.motor : MotorPin → Int16
  | LmotorA | LmotorB => 0x200
  | RmotorA | RmotorB => 0x400

/-- The pin is that of the direction whose bit is set. -/
def MotorPin.reverse : MotorPin → Bool
  | LmotorA | RmotorA => false
  | LmotorB | RmotorB => true

/-- The variables of the firmware, and the outputs of its pins. -/
structure RosThumper where
  counter : ℤ
  lMotorA : UInt8
  lMotorB : UInt8
  rMotorA : UInt8
  rMotorB : UInt8
  killed : Bool
  pins : UInt8 → UInt8

namespace RosThumper

/-- `HEARTBEAT`. -/
def HEARTBEAT : ℤ := 10000

/-- The firmware after `setup`, with the outputs before it. -/
def setup (pins : UInt8 → UInt8) : RosThumper where
  counter := 0
  lMotorA := 0
  lMotorB := 0
  rMotorA := 0
  rMotorB := 0
  killed := false
  pins := analogWrites pins
    [⟨MotorPin.LmotorA.number, 255⟩, ⟨MotorPin.LmotorB.number, 0⟩, ⟨MotorPin.RmotorA.number, 255⟩,
      ⟨MotorPin.RmotorB.number, 0⟩, ⟨MotorPin.LmotorA.number, 0⟩, ⟨MotorPin.LmotorB.number, 0⟩,
      ⟨MotorPin.RmotorA.number, 0⟩, ⟨MotorPin.RmotorB.number, 0⟩]

/-- The calls in `executeMotors`. The first one has a variable for its pin. -/
def motorWrites (t : RosThumper) : List Write :=
  [⟨t.lMotorA, t.lMotorA⟩, ⟨MotorPin.LmotorB.number, t.lMotorB⟩,
    ⟨MotorPin.RmotorA.number, t.rMotorA⟩, ⟨MotorPin.RmotorB.number, t.rMotorB⟩]

/-- `executeMotors`, with its calls of `analogWrite`. -/
def executeMotors (t : RosThumper) : RosThumper × List Write :=
  ({ t with pins := analogWrites t.pins t.motorWrites }, t.motorWrites)

/-- The low byte of a command. -/
def motorSpeed (val : Int16) : UInt8 := (val &&& 0xff).toUInt16.toUInt8

/-- The first part of `setMotors`: a command sets the variables of the motors that it addresses. -/
def assign (t : RosThumper) (val : Int16) : RosThumper :=
  let t :=
    if val &&& 0x200 ≠ 0 then
      if val &&& 0x100 ≠ 0 then { t with lMotorA := 0, lMotorB := motorSpeed val }
      else { t with lMotorA := motorSpeed val, lMotorB := 0 }
    else t
  if val &&& 0x400 ≠ 0 then
    if val &&& 0x100 ≠ 0 then { t with rMotorA := 0, rMotorB := motorSpeed val }
    else { t with rMotorA := motorSpeed val, rMotorB := 0 }
  else t

/-- `setMotors`, which `messageCb` calls, with its calls of `analogWrite`. -/
def setMotors (t : RosThumper) (val : Int16) : RosThumper × List Write :=
  let t := { t.assign val with counter := 0 }
  if !t.killed then t.executeMotors else (t, [])

/-- `loop` behind `spinOnce`. The statement `executeMotors;` does nothing. -/
def count (t : RosThumper) : RosThumper :=
  let t := { t with counter := t.counter + 1 }
  if t.counter > HEARTBEAT then { t with lMotorA := 0, lMotorB := 0, rMotorA := 0, rMotorB := 0 }
  else t

/-- What happens after `setup`: a message in `spinOnce`, or the rest of a round of `loop`. -/
inductive Event where
  | message (val : Int16)
  | count
deriving DecidableEq, Repr

def step (t : RosThumper) : Event → RosThumper
  | .message val => (t.setMotors val).1
  | .count => t.count

/-- The firmware after some events, with the outputs before `setup`. -/
def run (pins : UInt8 → UInt8) (events : List Event) : RosThumper := events.foldl step (setup pins)

/-! ## The law -/

/-- What a command means for a pin, if it addresses the motor: the speed for the pin of the
direction, and 0 for the other one. -/
def decoded (val : Int16) (pin : MotorPin) : Option UInt8 :=
  if val &&& pin.motor ≠ 0 then
    some (if decide (val &&& 0x100 ≠ 0) = pin.reverse then motorSpeed val else 0)
  else none

/-- A message is followed: the pins of the motors that it addresses get their values, those of the
others keep theirs, and no other pin is written. -/
structure Follows (t : RosThumper) (val : Int16) : Prop where
  outputs : ∀ pin : MotorPin,
    (t.setMotors val).1.pins pin.number = (decoded val pin).getD (t.pins pin.number)
  others : ∀ w ∈ (t.setMotors val).2, ∃ pin : MotorPin, pin.number = w.pin

/-- At the end of a round beyond the heartbeat all outputs are 0. -/
def Stops (t : RosThumper) : Prop :=
  t.count.counter > HEARTBEAT → ∀ pin : MotorPin, t.count.pins pin.number = 0

/-- The firmware obeys all commands and the heartbeat in a run. -/
structure Obeys (pins : UInt8 → UInt8) (events : List Event) : Prop where
  follows : ∀ before val later, events = before ++ .message val :: later →
    (run pins before).Follows val
  stops : ∀ before later, events = before ++ .count :: later → (run pins before).Stops

/-! ## The condition -/

/-- The rounds since the last message, if there is one. -/
def nextSilence (silence : Option ℤ) : Event → Option ℤ
  | .message _ => some 0
  | .count => silence.map (· + 1)

/-- Each command drives the left motor forward with the speed 3, or does not address it and is not
the first one; and once a message has come, the heartbeat goes on. -/
def Harmless (silence : Option ℤ) : Event → Prop
  | .message val => decoded val .LmotorA = some 3 ∨ decoded val .LmotorA = none ∧ silence.isSome
  | .count => ∀ rounds ∈ silence, rounds + 1 ≤ HEARTBEAT

/-! ## One event -/

/-- The variable that is meant for a pin. -/
def var (t : RosThumper) : MotorPin → UInt8
  | .LmotorA => t.lMotorA
  | .LmotorB => t.lMotorB
  | .RmotorA => t.rMotorA
  | .RmotorB => t.rMotorB

variable {t : RosThumper} {silence : Option ℤ}

theorem assign_kept (t : RosThumper) (val : Int16) :
    (t.assign val).killed = t.killed ∧ (t.assign val).pins = t.pins := by
  unfold assign
  dsimp only
  split_ifs <;> exact ⟨rfl, rfl⟩

theorem assign_var (t : RosThumper) (val : Int16) (pin : MotorPin) :
    (t.assign val).var pin = (decoded val pin).getD (t.var pin) := by
  unfold assign decoded
  dsimp only
  cases pin <;> dsimp only [MotorPin.motor, MotorPin.reverse] <;> split_ifs <;> simp_all [var]

/-- A message sets the variables as it says, and then writes them. -/
theorem setMotors_spec (hkilled : t.killed = false) (val : Int16) :
    (t.setMotors val).1.killed = false ∧ (t.setMotors val).1.counter = 0 ∧
      (∀ pin, (t.setMotors val).1.var pin = (decoded val pin).getD (t.var pin)) ∧
      (t.setMotors val).1.pins = analogWrites t.pins (t.setMotors val).1.motorWrites ∧
      (t.setMotors val).2 = (t.setMotors val).1.motorWrites := by
  obtain ⟨hkept, hpins⟩ := t.assign_kept val
  have hset : t.setMotors val = executeMotors { t.assign val with counter := 0 } := by
    rw [setMotors]
    exact if_pos (by rw [hkept, hkilled]; rfl)
  rw [hset]
  refine ⟨hkept.trans hkilled, rfl, fun pin => ?_, ?_, rfl⟩
  · rw [← assign_var]
    cases pin <;> rfl
  · rw [← hpins]
    rfl

/-- With 3 in `lMotorA`, each variable gets to its pin. -/
theorem analogWrites_motorWrites (h : t.lMotorA = 3) (pins : UInt8 → UInt8) (pin : MotorPin) :
    analogWrites pins t.motorWrites pin.number = t.var pin := by
  cases pin <;> simp [analogWrites, motorWrites, MotorPin.number, var, h]

/-- With another number, nothing gets to the first pin. -/
theorem analogWrites_of_ne (h : t.lMotorA ≠ 3) (pins : UInt8 → UInt8) :
    analogWrites pins t.motorWrites MotorPin.LmotorA.number = pins MotorPin.LmotorA.number := by
  simp [analogWrites, motorWrites, MotorPin.number, h.symm]

/-- What holds as long as only harmless events have come: each output is that of its variable,
and `lMotorA` is 3 from the first message on. -/
structure InStep (t : RosThumper) (silence : Option ℤ) : Prop where
  killed : t.killed = false
  pins : ∀ pin : MotorPin, t.pins pin.number = t.var pin
  idle : silence = none → ∀ pin, t.var pin = 0
  driven : ∀ rounds ∈ silence, t.counter = rounds ∧ t.lMotorA = 3

/-- Before the first message `lMotorA` is 0, and afterwards it is 3. -/
theorem InStep.lMotorA_eq (h : t.InStep silence) : t.lMotorA = if silence.isSome then 3 else 0 := by
  cases hsilence : silence with
  | none => exact h.idle hsilence .LmotorA
  | some rounds => exact (h.driven rounds hsilence).2

/-- A message is harmless exactly when it leaves 3 in `lMotorA`. -/
theorem InStep.harmless_iff (h : t.InStep silence) (val : Int16) :
    Harmless silence (.message val) ↔ (t.setMotors val).1.lMotorA = 3 := by
  obtain ⟨-, -, hvar, -, -⟩ := setMotors_spec h.killed val
  have hleft : (t.setMotors val).1.lMotorA = (decoded val .LmotorA).getD t.lMotorA := hvar .LmotorA
  rw [hleft, h.lMotorA_eq, Harmless]
  cases decoded val .LmotorA with
  | none => cases silence <;> simp
  | some speed => simp

/-- A message is followed exactly when it is harmless. -/
theorem InStep.follows_iff (h : t.InStep silence) (val : Int16) :
    t.Follows val ↔ Harmless silence (.message val) := by
  obtain ⟨-, -, hvar, hpins, hwrites⟩ := setMotors_spec h.killed val
  rw [h.harmless_iff]
  constructor
  · intro hfollows
    by_contra hne
    have hfirst := hfollows.outputs .LmotorA
    rw [hpins, analogWrites_of_ne hne, h.pins, ← hvar] at hfirst
    -- The variable has not changed, so it is 0, and pin 0 has been written.
    have hsame : (t.setMotors val).1.lMotorA = if silence.isSome then 3 else 0 :=
      hfirst.symm.trans h.lMotorA_eq
    obtain ⟨pin, hpin⟩ := hfollows.others ⟨_, _⟩ (by rw [hwrites]; exact List.mem_cons_self)
    have hzero : (t.setMotors val).1.lMotorA = 0 := by
      rw [hsame] at hne ⊢
      split_ifs at hne ⊢
      · exact absurd rfl hne
      · rfl
    rw [hzero] at hpin
    cases pin <;> exact absurd hpin (by decide)
  · intro hthree
    refine ⟨fun pin => ?_, fun w hw => ?_⟩
    · rw [hpins, analogWrites_motorWrites hthree, hvar, h.pins]
    · rw [hwrites, motorWrites, hthree] at hw
      simp only [List.mem_cons, List.not_mem_nil, or_false] at hw
      rcases hw with rfl | rfl | rfl | rfl
      · exact ⟨.LmotorA, rfl⟩
      · exact ⟨.LmotorB, rfl⟩
      · exact ⟨.RmotorA, rfl⟩
      · exact ⟨.RmotorB, rfl⟩

theorem count_spec (t : RosThumper) :
    t.count.counter = t.counter + 1 ∧ t.count.pins = t.pins ∧ t.count.killed = t.killed ∧
      ∀ pin, t.count.var pin = if t.counter + 1 > HEARTBEAT then 0 else t.var pin := by
  unfold count
  dsimp only
  split_ifs
  · exact ⟨rfl, rfl, rfl, fun pin => by cases pin <;> rfl⟩
  · exact ⟨rfl, rfl, rfl, fun pin => by cases pin <;> rfl⟩

/-- The heartbeat stops the motors exactly when it does not have to. -/
theorem InStep.stops_iff (h : t.InStep silence) : t.Stops ↔ Harmless silence .count := by
  obtain ⟨hcounter, hpins, -, -⟩ := t.count_spec
  rw [Stops, hcounter, hpins]
  constructor
  · intro hstops rounds hrounds
    obtain ⟨hcount, hthree⟩ := h.driven rounds hrounds
    by_contra hlate
    have hzero := hstops (by omega) .LmotorA
    rw [h.pins, var, hthree] at hzero
    exact absurd hzero (by decide)
  · intro hharmless hlate pin
    cases hsilence : silence with
    | none => exact (h.pins pin).trans (h.idle hsilence pin)
    | some rounds =>
      have hrounds := hharmless rounds hsilence
      have hcount := (h.driven rounds hsilence).1
      omega

/-- A harmless message leaves each output with its variable. -/
theorem InStep.message (h : t.InStep silence) {val : Int16}
    (hharmless : Harmless silence (.message val)) : (t.setMotors val).1.InStep (some 0) := by
  obtain ⟨hkilled, hcounter, -, hpins, -⟩ := setMotors_spec h.killed val
  have hthree := (h.harmless_iff val).mp hharmless
  refine ⟨hkilled, fun pin => ?_, nofun, ?_⟩
  · exact (congrFun hpins _).trans (analogWrites_motorWrites hthree _ pin)
  · rintro rounds hrounds
    obtain rfl := Option.some.inj hrounds
    exact ⟨hcounter, hthree⟩

/-- So does the end of a round: within the heartbeat nothing changes, and beyond it, before the
first message, all variables are 0 already. -/
theorem InStep.count (h : t.InStep silence) (hharmless : Harmless silence .count) :
    t.count.InStep (silence.map (· + 1)) := by
  obtain ⟨hcounter, hpins, hkilled, hvar⟩ := t.count_spec
  have hkept (pin : MotorPin) : t.count.var pin = t.var pin := by
    rw [hvar]
    split_ifs with hlate
    · cases hsilence : silence with
      | none => exact (h.idle hsilence pin).symm
      | some rounds =>
        have hrounds := hharmless rounds hsilence
        have hcount := (h.driven rounds hsilence).1
        omega
    · rfl
  refine ⟨hkilled.trans h.killed, fun pin => ?_, fun hnone pin => ?_, ?_⟩
  · rw [hpins, hkept]
    exact h.pins pin
  · rw [hkept]
    exact h.idle (Option.map_eq_none_iff.mp hnone) pin
  · rintro next hnext
    obtain ⟨rounds, hrounds, rfl⟩ := Option.map_eq_some_iff.mp hnext
    obtain ⟨hcount, hthree⟩ := h.driven rounds hrounds
    exact ⟨by rw [hcounter, hcount], (hkept .LmotorA).trans hthree⟩

/-- Harmless events lead to states in which the law can be told by the next one. -/
theorem InStep.step (h : t.InStep silence) {e : Event} (hharmless : Harmless silence e) :
    (t.step e).InStep (nextSilence silence e) := by
  cases e with
  | message val => exact h.message hharmless
  | count => exact h.count hharmless

/-! ## The run -/

theorem run_concat (pins : UInt8 → UInt8) (before : List Event) (e : Event) :
    run pins (before ++ [e]) = (run pins before).step e :=
  List.foldl_concat ..

theorem inStep_setup (pins : UInt8 → UInt8) : (setup pins).InStep none where
  killed := rfl
  pins pin := by cases pin <;> simp [setup, analogWrites, MotorPin.number, var]
  idle _ pin := by cases pin <;> rfl
  driven := nofun

/-- What holds after harmless events. -/
theorem inStep_of_accounts (pins : UInt8 → UInt8) {events : List Event}
    (h : Log.Accounts nextSilence Harmless none events) :
    (run pins events).InStep (events.foldl nextSilence none) := by
  induction events using List.reverseRecOn with
  | nil => exact inStep_setup pins
  | append_singleton before e ih =>
    obtain ⟨hbefore, hlast⟩ := Log.accounts_snoc.mp h
    rw [run_concat, List.foldl_concat]
    exact (ih hbefore).step hlast

/-- The law of a run that is one event longer. -/
theorem obeys_concat (pins : UInt8 → UInt8) (before : List Event) (e : Event) :
    Obeys pins (before ++ [e]) ↔ Obeys pins before ∧
      (∀ val, e = .message val → (run pins before).Follows val) ∧
      (e = .count → (run pins before).Stops) := by
  constructor
  · rintro ⟨hfollows, hstops⟩
    have hcounts := Log.forall_split_concat.mp hstops
    refine ⟨⟨fun earlier val later heq => ?_, hcounts.1⟩, fun val => ?_, hcounts.2⟩
    · exact (Log.forall_split_concat.mp fun earlier later => hfollows earlier val later).1 _ _ heq
    · exact (Log.forall_split_concat.mp fun earlier later => hfollows earlier val later).2
  · rintro ⟨hbefore, hfollows, hstops⟩
    refine ⟨fun earlier val later => ?_, Log.forall_split_concat.mpr ⟨hbefore.stops, hstops⟩⟩
    exact Log.forall_split_concat.mpr
      ⟨fun earlier later => hbefore.follows earlier val later, hfollows val⟩ earlier later

/-- The firmware obeys all commands and the heartbeat in a run exactly when all events are
harmless. -/
theorem obeys_iff (pins : UInt8 → UInt8) (events : List Event) :
    Obeys pins events ↔ Log.Accounts nextSilence Harmless none events := by
  induction events using List.reverseRecOn with
  | nil => exact iff_of_true ⟨by simp, by simp⟩ trivial
  | append_singleton before e ih =>
    rw [obeys_concat, ih, Log.accounts_snoc]
    refine and_congr_right fun hbefore => ?_
    have hstep := inStep_of_accounts pins hbefore
    cases e with
    | message val =>
      rw [← hstep.follows_iff]
      exact ⟨fun h => h.1 val rfl, fun h => ⟨fun _ heq => by cases heq; exact h, nofun⟩⟩
    | count =>
      rw [← hstep.stops_iff]
      exact ⟨fun h => h.2 rfl, fun h => ⟨nofun, fun _ => h⟩⟩

/-- A command for the left motor, forward with the speed 100, goes to pin 100. -/
theorem speed_100_misses : ¬(∀ pins events, Obeys pins events) := by
  intro h
  have hleft := ((h (fun _ => 0) [.message 0x264]).follows [] 0x264 [] rfl).outputs .LmotorA
  exact absurd hleft (by decide +kernel)

end RosThumper

end Guillemot.Motor
