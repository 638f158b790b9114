import Guillemot.Library.Conversion
import Guillemot.Sensor.Line

/-!
# Measurements on their way

`loop` of `SubSensorBoard.ino` prints a measurement as a line of ten numbers, and `main` of
`SubSensorController.cpp` scans a line that `getTTYLine` returns. A `Measurement` has what
`Serial.print` makes of a `float`, which are two digits behind the point.

If no byte of a line is lost and the controller is not interrupted within a line, its calls of
`getTTYLine` return the lines of all measurements, in their order, and otherwise nothing that is
accepted; and what is scanned of a line are the numbers that were printed (`received_stream`).
-/

namespace Guillemot.Sensor

open Conversion

/-! ## The board -/

/-- What `loop` prints of its sensors. -/
structure Measurement where
  controller1Temp : Decimal
  controller2Temp : Decimal
  caseTemp : Decimal
  motorKilled : UInt8
  voltage : Decimal
  current : Decimal
  depth : Decimal
  flooded : UInt8
  dropperLeft : UInt8
  dropperRight : UInt8
deriving DecidableEq, Repr

/-- A byte, as it is printed. -/
def printByte (b : UInt8) : List Char := Nat.toDigits 10 b.toNat

/-- The numbers of a line, in the order in which they are printed. -/
def Measurement.parts (m : Measurement) : List (Directive × List Char × Value) :=
  [(.float, m.controller1Temp.text, .float m.controller1Temp.value),
    (.float, m.controller2Temp.text, .float m.controller2Temp.value),
    (.float, m.caseTemp.text, .float m.caseTemp.value),
    (.int, printByte m.motorKilled, .int m.motorKilled.toNat),
    (.float, m.voltage.text, .float m.voltage.value),
    (.float, m.current.text, .float m.current.value),
    (.float, m.depth.text, .float m.depth.value),
    (.int, printByte m.flooded, .int m.flooded.toNat),
    (.int, printByte m.dropperLeft, .int m.dropperLeft.toNat),
    (.int, printByte m.dropperRight, .int m.dropperRight.toNat)]

/-- The text between `'S'` and `'E'`. -/
def Measurement.text (m : Measurement) : List Char :=
  ((m.parts.map fun p => p.2.1).intersperse [',']).flatten

/-- The bytes between `'S'` and `'E'`. -/
def Measurement.line (m : Measurement) : List UInt8 := m.text.map Char.toUInt8

/-- The bytes that `loop` prints, with the end of the line. -/
def Measurement.bytes (m : Measurement) : List UInt8 :=
  startByte :: m.line ++ [endByte, 0x0d, newline]

/-! ## The controller -/

/-- The variables of `main` that `sscanf` assigns. -/
structure Numbers (F : Type*) where
  temp : F × F × F
  motorKilled : ℤ
  curVolt : F × F
  pressure : F
  waterDetected : ℤ
  dropper : ℤ × ℤ
deriving DecidableEq

/-- The format, `%f,%f,%f,%d,%f,%f,%f,%d,%d,%d`. -/
def format : List Directive :=
  [.float, .float, .float, .int, .float, .float, .float, .int, .int, .int].intersperse
    (.literal ',')

section Numbers

variable {F : Type*} (toFloat : ℚ → F)

/-- The call of `sscanf`, if it assigns `numVariables` numbers. -/
def scanLine (line : List UInt8) : Option (Numbers F) :=
  match sscanf format (line.map Char.ofUInt8) with
  | [.float t0, .float t1, .float t2, .int killed, .float c0, .float c1, .float p, .int water,
      .int left, .int right] =>
    some
      { temp := (toFloat t0, toFloat t1, toFloat t2)
        motorKilled := killed
        curVolt := (toFloat c0, toFloat c1)
        pressure := toFloat p
        waterDetected := water
        dropper := (left, right) }
  | _ => none

/-- What `main` makes of a line. -/
def readLine (line : List UInt8) : Option (Numbers F) :=
  if accepted line then scanLine toFloat line else none

/-- The numbers of a measurement. -/
def Measurement.numbers (m : Measurement) : Numbers F where
  temp := (toFloat m.controller1Temp.value, toFloat m.controller2Temp.value,
    toFloat m.caseTemp.value)
  motorKilled := m.motorKilled.toNat
  curVolt := (toFloat m.voltage.value, toFloat m.current.value)
  pressure := toFloat m.depth.value
  waterDetected := m.flooded.toNat
  dropper := (m.dropperLeft.toNat, m.dropperRight.toNat)

end Numbers

/-! ## A line is read as it was printed -/

variable {m : Measurement}

theorem Measurement.reads (m : Measurement) : ∀ p ∈ m.parts, Reads [p.1] p.2.1 [p.2.2] := by
  intro p hp
  simp only [parts, List.mem_cons, List.not_mem_nil, or_false] at hp
  rcases hp with rfl | rfl | rfl | rfl | rfl | rfl | rfl | rfl | rfl | rfl
  all_goals first | exact Decimal.reads _ | exact reads_toDigits _

theorem Measurement.isNumeric (m : Measurement) : ∀ p ∈ m.parts, ∀ c ∈ p.2.1, IsNumeric c := by
  intro p hp
  simp only [parts, List.mem_cons, List.not_mem_nil, or_false] at hp
  rcases hp with rfl | rfl | rfl | rfl | rfl | rfl | rfl | rfl | rfl | rfl
  all_goals first | exact Decimal.isNumeric _ | exact isNumeric_toDigits _

/-- A character of a line is one of a number, or a comma. -/
theorem Measurement.mem_text {c : Char} (hc : c ∈ m.text) : IsNumeric c ∨ c = ',' := by
  obtain ⟨part, hpart, hc⟩ := List.mem_flatten.mp hc
  have hsub : ∀ (xs : List (List Char)) (x : List Char), x ∈ xs.intersperse [','] →
      x ∈ xs ∨ x = [','] := by
    intro xs
    induction xs with
    | nil => exact fun x hx => .inl hx
    | cons y ys ih =>
      intro x hx
      cases ys with
      | nil => exact .inl hx
      | cons z zs =>
        rcases List.mem_cons.mp hx with rfl | hx
        · exact .inl List.mem_cons_self
        · rcases List.mem_cons.mp hx with rfl | hx
          · exact .inr rfl
          · exact (ih x hx).imp (List.mem_cons_of_mem y) id
  rcases hsub _ _ hpart with hpart | rfl
  · obtain ⟨p, hp, rfl⟩ := List.mem_map.mp hpart
    exact .inl (m.isNumeric p hp c hc)
  · exact .inr (List.mem_singleton.mp hc)

theorem toNat_toUInt8 {c : Char} (h : c.toNat < 256) : c.toUInt8.toNat = c.toNat := by
  have hmod : c.toUInt8.toNat = c.toNat % 256 := UInt32.toNat_toUInt8 c.val
  rw [hmod, Nat.mod_eq_of_lt h]

theorem ofUInt8_toUInt8 {c : Char} (h : c.toNat < 256) : Char.ofUInt8 c.toUInt8 = c := by
  apply Char.toNat_inj.mp
  show c.toUInt8.toNat = c.toNat
  exact toNat_toUInt8 h

/-- The characters of numbers. -/
theorem toNat_of_isNumeric {c : Char} (h : IsNumeric c) :
    45 ≤ c.toNat ∧ c.toNat ≤ 57 := by
  rcases h with hdigit | rfl | rfl
  · simp only [Char.isDigit, ge_iff_le, Bool.and_eq_true, decide_eq_true_eq] at hdigit
    have hlow : 48 ≤ c.toNat := hdigit.1
    have hhigh : c.toNat ≤ 57 := hdigit.2
    omega
  · decide
  · decide

/-- The characters of a line are read back from its bytes, which `getTTYLine` keeps. -/
theorem Measurement.mem_text_bounds {c : Char} (hc : c ∈ m.text) :
    44 ≤ c.toNat ∧ c.toNat ≤ 57 := by
  rcases m.mem_text hc with hnumeric | rfl
  · have hbounds := toNat_of_isNumeric hnumeric
    omega
  · decide

theorem Measurement.isKept_of_mem {b : UInt8} (hb : b ∈ m.line) : isKept b = true := by
  obtain ⟨c, hc, rfl⟩ := List.mem_map.mp hb
  obtain ⟨hlow, hhigh⟩ := m.mem_text_bounds hc
  have hbyte : c.toUInt8.toNat = c.toNat := toNat_toUInt8 (by omega)
  have hle : (0x2b : UInt8) ≤ c.toUInt8 := by
    rw [UInt8.le_iff_toNat_le, hbyte]
    exact Nat.le_trans (by decide) hlow
  have hge : c.toUInt8 ≤ 0x39 := by
    rw [UInt8.le_iff_toNat_le, hbyte]
    exact hhigh
  rw [isKept, decide_eq_true hle, decide_eq_true hge]
  rfl

/-- A part of a line has no comma. -/
theorem count_comma {text : List Char} (h : ∀ c ∈ text, IsNumeric c) :
    (text.map Char.toUInt8).count comma = 0 := by
  refine List.count_eq_zero.mpr fun hmem => ?_
  obtain ⟨c, hc, heq⟩ := List.mem_map.mp hmem
  obtain ⟨hlow, hhigh⟩ := toNat_of_isNumeric (h c hc)
  have hbyte := toNat_toUInt8 (c := c) (by omega)
  rw [heq] at hbyte
  have hcomma : comma.toNat = 44 := rfl
  omega

/-- A line has a comma between any two of its parts. -/
theorem count_comma_intersperse (texts : List (List Char))
    (h : ∀ text ∈ texts, ∀ c ∈ text, IsNumeric c) :
    (((texts.intersperse [',']).flatten).map Char.toUInt8).count comma = texts.length - 1 := by
  induction texts with
  | nil => rfl
  | cons text texts ih =>
    obtain ⟨htext, htexts⟩ := List.forall_mem_cons.mp h
    cases texts with
    | nil =>
      show ((text ++ []).map Char.toUInt8).count comma = 0
      rw [List.append_nil]
      exact count_comma htext
    | cons next texts =>
      have hrest := ih htexts
      show ((text ++ ([','] ++ ((next :: texts).intersperse [',']).flatten)).map
        Char.toUInt8).count comma = texts.length + 1
      rw [List.map_append, List.count_append, count_comma htext, List.map_append,
        List.count_append, hrest, List.length_cons]
      show 0 + (1 + texts.length) = texts.length + 1
      omega

theorem Measurement.accepted_line (m : Measurement) : accepted m.line = true := by
  have hparts : ∀ text ∈ m.parts.map fun p => p.2.1, ∀ c ∈ text, IsNumeric c := by
    intro text htext
    obtain ⟨p, hp, rfl⟩ := List.mem_map.mp htext
    exact m.isNumeric p hp
  have hcount : m.line.count comma = 9 := count_comma_intersperse _ hparts
  have hne : m.line ≠ [] := by
    intro hnil
    rw [hnil] at hcount
    cases hcount
  unfold accepted goodLine
  rw [hcount, decide_eq_true hne]
  rfl

/-- What is scanned of a line are the numbers that were printed. -/
theorem Measurement.readLine_line {F : Type*} (toFloat : ℚ → F) (m : Measurement) :
    readLine toFloat m.line = some (m.numbers toFloat) := by
  have hback : m.line.map Char.ofUInt8 = m.text := by
    unfold line
    rw [List.map_map]
    refine (List.map_congr_left fun c hc => ?_).trans (List.map_id _)
    exact ofUInt8_toUInt8 (Nat.lt_of_le_of_lt (m.mem_text_bounds hc).2 (by decide))
  have hscan : sscanf format m.text = m.parts.map fun p => p.2.2 :=
    (reads_intersperse (by decide) m.parts m.reads).eq
  rw [readLine, if_pos m.accepted_line, scanLine, hback, hscan]
  rfl

/-! ## Lines that arrive -/

/-- Nothing of a line: the time is over, or there is a byte that is neither kept nor an `'E'`. -/
def Idle : Event → Prop
  | .stop => True
  | .timeout => True
  | .fail => False
  | .byte b => isKept b = false ∧ b ≠ endByte

/-- The events of a line, from its `'S'` to its `'E'`. -/
def Measurement.events (m : Measurement) : List Event :=
  (startByte :: m.line ++ [endByte]).map .byte

/-- Events that bring some measurements, and nothing else. -/
inductive Carries : List Event → List Measurement → Prop where
  | idle {gap : List Event} : (∀ e ∈ gap, Idle e) → Carries gap []
  | line {gap es : List Event} {m : Measurement} {ms : List Measurement} : (∀ e ∈ gap, Idle e) →
      Carries es ms → Carries (gap ++ (m.events ++ es)) (m :: ms)

/-- The bytes of a line are kept up to its `'E'`. -/
theorem getTTYLine_line (bytes : List UInt8) (hkept : ∀ b ∈ bytes, isKept b = true)
    {lastChar : UInt8} (hlast : lastChar ≠ newline) (ret : List UInt8) (es : List Event) :
    getTTYLine lastChar ret ((bytes ++ [endByte]).map .byte ++ es) = some (ret ++ bytes, es) := by
  induction bytes generalizing lastChar ret with
  | nil =>
    show getTTYLine lastChar ret (.byte endByte :: es) = some (ret ++ [], es)
    rw [getTTYLine, if_neg hlast, List.append_nil]
    rfl
  | cons b bytes ih =>
    obtain ⟨hb, hbytes⟩ := List.forall_mem_cons.mp hkept
    have hstart : b ≠ startByte := by rintro rfl; cases hb
    have hend : b ≠ endByte := by rintro rfl; cases hb
    have hnewline : b ≠ newline := by rintro rfl; cases hb
    have hrest := ih hbytes hnewline (ret ++ [b])
    rw [List.append_assoc, List.singleton_append] at hrest
    rw [← hrest]
    show getTTYLine lastChar ret (.byte b :: ((bytes ++ [endByte]).map .byte ++ es)) = _
    rw [getTTYLine, if_neg hlast, if_neg hstart, if_neg hend, if_pos hb]

/-- A byte that is not kept is left out. -/
theorem getTTYLine_idleByte {lastChar b : UInt8} (hlast : lastChar ≠ newline)
    (hb : isKept b = false) (hend : b ≠ endByte) (es : List Event) :
    getTTYLine lastChar [] (.byte b :: es) = getTTYLine b [] es := by
  rw [getTTYLine, if_neg hlast]
  by_cases hstart : b = startByte
  · rw [if_pos hstart]
  · rw [if_neg hstart, if_neg hend, if_neg (by rw [hb]; exact Bool.false_ne_true)]

/-- A call that begins outside of a line: it returns nothing, or the next line. -/
theorem getTTYLine_idle (gap : List Event) (hidle : ∀ e ∈ gap, Idle e) (lastChar : UInt8)
    (m : Measurement) (es : List Event) :
    (∃ gap', getTTYLine lastChar [] (gap ++ (m.events ++ es)) =
        some ([], gap' ++ (m.events ++ es)) ∧ (∀ e ∈ gap', Idle e) ∧
        gap'.length ≤ gap.length ∧ (lastChar ≠ newline → gap'.length < gap.length)) ∨
      getTTYLine lastChar [] (gap ++ (m.events ++ es)) = some (m.line, es) := by
  have hstop (e : Event) (es : List Event) :
      getTTYLine newline [] (e :: es) = some ([], e :: es) := by
    unfold getTTYLine
    exact if_pos rfl
  induction gap generalizing lastChar with
  | nil =>
    by_cases hlast : lastChar = newline
    · refine .inl ⟨[], ?_, List.forall_mem_nil _, Nat.le_refl 0, fun h => absurd hlast h⟩
      rw [hlast]
      exact hstop _ _
    · refine .inr ?_
      have hline := getTTYLine_line m.line (fun b hb => m.isKept_of_mem hb)
        (show startByte ≠ newline by decide) [] es
      exact (getTTYLine_idleByte hlast rfl (by decide) _).trans hline
  | cons e gap ih =>
    obtain ⟨he, hgap⟩ := List.forall_mem_cons.mp hidle
    by_cases hlast : lastChar = newline
    · refine .inl ⟨e :: gap, ?_, hidle, Nat.le_refl _, fun h => absurd hlast h⟩
      rw [hlast]
      exact hstop _ _
    · have hshorter : gap.length < (e :: gap).length := Nat.lt_succ_self _
      cases e with
      | stop =>
        refine .inl ⟨gap, ?_, hgap, hshorter.le, fun _ => hshorter⟩
        rw [List.cons_append, getTTYLine, if_neg hlast]
      | timeout =>
        refine .inl ⟨gap, ?_, hgap, hshorter.le, fun _ => hshorter⟩
        rw [List.cons_append, getTTYLine, if_neg hlast]
      | fail => cases he
      | byte b =>
        rw [List.cons_append, getTTYLine_idleByte hlast he.1 he.2]
        rcases ih hgap b with ⟨gap', hcall, hidle', hle, -⟩ | hline
        · have hlt := Nat.lt_of_le_of_lt hle hshorter
          exact .inl ⟨gap', hcall, hidle', hlt.le, fun _ => hlt⟩
        · exact .inr hline

/-- A call when there is no line: it goes on, or it returns nothing. -/
theorem getTTYLine_empty (gap : List Event) (hidle : ∀ e ∈ gap, Idle e) (lastChar : UInt8) :
    getTTYLine lastChar [] gap = none ∨
      ∃ gap', getTTYLine lastChar [] gap = some ([], gap') ∧ ∀ e ∈ gap', Idle e := by
  induction gap generalizing lastChar with
  | nil =>
    by_cases hlast : lastChar = newline
    · exact .inr ⟨[], if_pos hlast, List.forall_mem_nil _⟩
    · exact .inl (if_neg hlast)
  | cons e gap ih =>
    obtain ⟨he, hgap⟩ := List.forall_mem_cons.mp hidle
    by_cases hlast : lastChar = newline
    · refine .inr ⟨e :: gap, ?_, hidle⟩
      unfold getTTYLine
      exact if_pos hlast
    · cases e with
      | stop => exact .inr ⟨gap, by rw [getTTYLine, if_neg hlast], hgap⟩
      | timeout => exact .inr ⟨gap, by rw [getTTYLine, if_neg hlast], hgap⟩
      | fail => cases he
      | byte b =>
        rw [getTTYLine_idleByte hlast he.1 he.2]
        exact ih hgap b

/-- What the board prints, with other events in front of each line. -/
def stream (sent : List (List Event × Measurement)) : List Event :=
  sent.flatMap fun p => p.1 ++ p.2.bytes.map .byte

/-- The end of a line belongs to none. -/
theorem carries_stream (sent : List (List Event × Measurement))
    (hidle : ∀ p ∈ sent, ∀ e ∈ p.1, Idle e) {gap : List Event} (hgap : ∀ e ∈ gap, Idle e) :
    Carries (gap ++ stream sent) (sent.map Prod.snd) := by
  induction sent generalizing gap with
  | nil =>
    show Carries (gap ++ []) []
    rw [List.append_nil]
    exact .idle hgap
  | cons p sent ih =>
    obtain ⟨hp, hsent⟩ := List.forall_mem_cons.mp hidle
    have hend : ∀ e ∈ [Event.byte 0x0d, Event.byte newline], Idle e := by
      intro e he
      rcases List.mem_cons.mp he with rfl | he
      · exact ⟨rfl, by decide⟩
      · rw [List.mem_singleton.mp he]
        exact ⟨rfl, by decide⟩
    have hfront : ∀ e ∈ gap ++ p.1, Idle e := fun e he =>
      (List.mem_append.mp he).elim (hgap e) (hp e)
    have hsplit : gap ++ stream (p :: sent) =
        (gap ++ p.1) ++ (p.2.events ++ ([.byte 0x0d, .byte newline] ++ stream sent)) := by
      have hbytes : p.2.bytes.map Event.byte =
          p.2.events ++ [.byte 0x0d, .byte newline] := by
        simp [Measurement.bytes, Measurement.events]
      rw [stream, List.flatMap_cons, hbytes]
      simp only [stream, List.append_assoc]
    rw [hsplit]
    exact .line hfront (ih hsent hend)

section Received

variable {F : Type*} (toFloat : ℚ → F)

/-- What `main` reads in a session. -/
def received (rs : List Reading) : List (Numbers F) := rs.filterMap fun r => readLine toFloat r.line

theorem received_cons (r : Reading) (rs : List Reading) :
    received toFloat (r :: rs) = (readLine toFloat r.line).toList ++ received toFloat rs := by
  unfold received
  rw [List.filterMap_cons]
  cases readLine toFloat r.line <;> rfl

/-- Nothing is read when no line arrives. -/
theorem received_of_idle (junks before : List UInt8) {gap : List Event}
    (hidle : ∀ e ∈ gap, Idle e) : received toFloat (session junks before gap) = [] := by
  induction junks generalizing before gap with
  | nil => rfl
  | cons junk junks ih =>
    rw [session]
    rcases getTTYLine_empty gap hidle junk with hnone | ⟨gap', hcall, hidle'⟩
    · rw [hnone]
      rfl
    · rw [hcall]
      dsimp only
      rw [received_cons, ih _ hidle']
      rfl

/-- The measurements that arrive are read, each once and in their order, however often the
controller is told meanwhile that its time is over, once it has called `getTTYLine` for each event.
A call whose `lastChar` happens to be the end of a line does nothing. -/
theorem received_of_carries (junks before : List UInt8) {es : List Event} {ms : List Measurement}
    (h : Carries es ms) (hcalls : es.length ≤ (junks.filter (· ≠ newline)).length) :
    received toFloat (session junks before es) = ms.map (Measurement.numbers toFloat) := by
  induction junks generalizing before es ms with
  | nil =>
    have hnil : es = [] := List.eq_nil_of_length_eq_zero (Nat.le_zero.mp hcalls)
    cases h with
    | idle => rfl
    | line => simp [Measurement.events] at hnil
  | cons junk junks ih =>
    cases h with
    | idle hidle => exact received_of_idle toFloat _ _ hidle
    | @line gap es m ms hidle hrest =>
      have hfilter : ((junk :: junks).filter (· ≠ newline)).length =
          (junks.filter (· ≠ newline)).length + if junk = newline then 0 else 1 := by
        rw [List.filter_cons]
        by_cases hjunk : junk = newline
        · simp [hjunk]
        · simp [hjunk]
      rw [hfilter, List.length_append] at hcalls
      rw [session]
      rcases getTTYLine_idle gap hidle junk m es with ⟨gap', hcall, hidle', hle, hlt⟩ | hline
      · rw [hcall]
        dsimp only
        have hnext : (gap' ++ (m.events ++ es)).length ≤ (junks.filter (· ≠ newline)).length := by
          rw [List.length_append]
          by_cases hjunk : junk = newline
          · rw [if_pos hjunk] at hcalls
            omega
          · have hshort := hlt hjunk
            rw [if_neg hjunk] at hcalls
            omega
        rw [received_cons, ih _ (.line hidle' hrest) hnext]
        rfl
      · rw [hline]
        dsimp only
        have hnext : es.length ≤ (junks.filter (· ≠ newline)).length := by
          have hevents : m.events.length = m.line.length + 2 := by simp [Measurement.events]
          rw [List.length_append, hevents] at hcalls
          split_ifs at hcalls <;> omega
        rw [received_cons, ih _ hrest hnext, m.readLine_line, List.map_cons]
        rfl

/-- The measurements that the board prints are read, each once and in their order, whatever the
controller is told between the lines, once it has called `getTTYLine` for each byte and for each
other event, not counting the calls that do nothing. -/
theorem received_stream (sent : List (List Event × Measurement))
    (hidle : ∀ p ∈ sent, ∀ e ∈ p.1, Idle e) (junks : List UInt8)
    (hcalls : (stream sent).length ≤ (junks.filter (· ≠ newline)).length) :
    received toFloat (session junks [] (stream sent)) =
      (sent.map Prod.snd).map (Measurement.numbers toFloat) :=
  received_of_carries toFloat junks [] (carries_stream sent hidle (List.forall_mem_nil _)) hcalls

end Received

end Guillemot.Sensor
