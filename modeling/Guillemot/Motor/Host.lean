import Guillemot.Motor.Wire

/-!
# The host of the motor controller

`MotorControllerHandler` of `motorController.cpp`. The serial port is open and raises no exceptions.
What `gettimeofday` returns is an argument wherever it is called, and so is what uninitialised
memory holds. A function that transmits returns the message that it writes to the port, and one that
receives is given the bytes that it reads.

`receiveByte_of_frame` says what reading the bytes of a frame amounts to: nothing until the last
one, and then `handleResponse` on its message.
-/

namespace Guillemot.Motor

/-! ## Constants and time -/

/-- `RESEND_TIMEOUT`. -/
def resendTimeout : ℤ := 1000

/-- `QUERY_PERIOD`. -/
def queryPeriod : ℤ := 1000

/-- `CURRENT_PERIOD`. -/
def currentPeriod : ℤ := 100

/-- `MOTOR_PERIOD`. -/
def motorPeriod : ℤ := 70

/-- `MaxStep`. -/
def maxStep : ℤ := 20

/-- `timeval`. -/
structure Timeval where
  /-- `tv_sec`. -/
  sec : ℤ
  /-- `tv_usec`. -/
  usec : ℤ
deriving DecidableEq, Repr

/-- `getMilliSecsBetween`. -/
def getMilliSecsBetween (start stop : Timeval) : ℤ :=
  (stop.sec - start.sec) * 1000 + (stop.usec - start.usec).tdiv 1000

/-- `motorPosition`, the two motors. -/
inductive MotorPosition where
  | left
  | right
deriving DecidableEq, Repr

/-- `'L'` and `'R'`, the first data byte of a current request. -/
def MotorPosition.byte : MotorPosition → UInt8
  | left => 0x4c
  | right => 0x52

/-! ## State -/

/-- The members of `MotorControllerHandler` that its functions use, but for `MaxStep`, which is
never changed. -/
structure Host where
  /-- `awaitingResponse`. -/
  awaitingResponse : Bool
  /-- `currentMessage`. -/
  currentMessage : Message
  /-- `lastSendTime`. -/
  lastSendTime : Timeval
  /-- `lastQRCurTime`. -/
  lastQRCurTime : Timeval
  /-- `lastQLCurTime`. -/
  lastQLCurTime : Timeval
  /-- `lastQVoltTime`. -/
  lastQVoltTime : Timeval
  /-- `lastMotorTime`. -/
  lastMotorTime : Timeval
  /-- `rightSpeed`. -/
  rightSpeed : ℤ
  /-- `leftSpeed`. -/
  leftSpeed : ℤ
  /-- `rightTargetSpeed`. -/
  rightTargetSpeed : ℤ
  /-- `leftTargetSpeed`. -/
  leftTargetSpeed : ℤ
  /-- `RightCurrent`. -/
  rightCurrent : UInt32
  /-- `LeftCurrent`. -/
  leftCurrent : UInt32
  /-- `Voltage`. -/
  voltage : UInt32
  /-- The first `bufIndex` bytes of `buffer`. -/
  buffer : List UInt8
deriving DecidableEq, Repr

/-- The constructor. The members that it leaves uninitialised, and the times that it reads, are
those of `junk`. -/
def Host.new (junk : Host) : Host :=
  { junk with
    awaitingResponse := false
    buffer := []
    currentMessage.type := noMessage
    rightSpeed := 0
    leftSpeed := 0
    rightTargetSpeed := 0
    leftTargetSpeed := 0 }

/-- The host when it starts, with all that is not initialised zero. -/
def Host.zero : Host where
  awaitingResponse := false
  currentMessage := ⟨noMessage, ⟨0, 0, 0, 0⟩⟩
  lastSendTime := ⟨0, 0⟩
  lastQRCurTime := ⟨0, 0⟩
  lastQLCurTime := ⟨0, 0⟩
  lastQVoltTime := ⟨0, 0⟩
  lastMotorTime := ⟨0, 0⟩
  rightSpeed := 0
  leftSpeed := 0
  rightTargetSpeed := 0
  leftTargetSpeed := 0
  rightCurrent := 0
  leftCurrent := 0
  voltage := 0
  buffer := []

/-! ## Speeds -/

/-- `filter`. -/
def filter (speed : ℤ) : ℤ :=
  let speed := if 256 ≤ speed then 255 else speed
  let speed := if speed ≤ -256 then -255 else speed;
  -speed

/-- `MotorControllerHandler::setMotorSpeed`. -/
def Host.setMotorSpeed (h : Host) (right left : ℤ) : Host :=
  { h with rightTargetSpeed := filter right, leftTargetSpeed := filter left }

/-- The conversion of an `int` to an `unsigned char`. -/
def toByte (n : ℤ) : UInt8 := UInt8.ofNat (n % 256).toNat

/-- `createMessageFromSpeed`. -/
def createMessageFromSpeed (rightSpeed leftSpeed : ℤ) : Message where
  type := driveCmd
  data := {
    b0 := if 0 < leftSpeed then toByte leftSpeed else 0
    b1 := if 0 < leftSpeed then 0 else toByte (-leftSpeed)
    b2 := if 0 < rightSpeed then toByte rightSpeed else 0
    b3 := if 0 < rightSpeed then 0 else toByte (-rightSpeed) }

/-- The step of `CheckMotor` from a speed towards its target. -/
def stepTowards (speed target : ℤ) : ℤ :=
  if speed ≠ target then
    let diff := target - speed
    let diff := if maxStep < diff then maxStep else diff
    let diff := if diff < -maxStep then -maxStep else diff
    speed + diff
  else speed

/-! ## Receiving -/

/-- A speed in the data of a response: the forward byte, or the reverse one with a minus sign. -/
def responseSpeed (forward reverse : UInt8) : ℤ :=
  if forward ≠ 0 then forward.toNat else -reverse.toNat

/-- The `switch` of `processResponse`: the host afterwards, and the motor whose current is stored
and published, if one is. -/
def Host.handleResponse (h : Host) (response : Message) : Host × Option MotorPosition :=
  -- An error is not compared with the current message, which stays.
  if response.type = errorCmd then ({ h with awaitingResponse := false }, none)
  else if response.type = driveResp then
    if h.currentMessage.type ≠ driveCmd then (h, none)
    else
      ({ h with
          leftSpeed := responseSpeed response.data.b0 response.data.b1
          rightSpeed := responseSpeed response.data.b2 response.data.b3
          currentMessage.type := noMessage
          awaitingResponse := false }, none)
  else if response.type = currentResp then
    if h.currentMessage.type ≠ currentCmd then (h, none)
    -- The response does not name a motor; the current message does.
    else if h.currentMessage.data.b0 = MotorPosition.left.byte then
      ({ h with
          leftCurrent := response.data.toFloat
          currentMessage.type := noMessage
          awaitingResponse := false }, some .left)
    else
      ({ h with
          rightCurrent := response.data.toFloat
          currentMessage.type := noMessage
          awaitingResponse := false }, some .right)
  else if response.type = voltageResp then
    if h.currentMessage.type ≠ voltageCmd then (h, none)
    else
      ({ h with
          voltage := response.data.toFloat
          currentMessage.type := noMessage
          awaitingResponse := false }, none)
  else (h, none)

/-- `processResponse`, which is called with seven bytes in the buffer: the host afterwards and,
unless a byte was thrown out, the response with the motor whose current is stored. -/
def Host.processResponse (h : Host) : Host × Option (Message × Option MotorPosition) :=
  match Message.ofBytes h.buffer with
  | none => ({ h with buffer := h.buffer.tail }, none)
  | some response =>
    ((Host.handleResponse { h with buffer := [] } response).1,
      some (response, (Host.handleResponse { h with buffer := [] } response).2))

/-- One round of the loop of `receive`, for the byte `data`. The inner loop on `bufIndex == 7` does
nothing, since `processResponse` leaves fewer bytes in the buffer. -/
def Host.receiveByte (h : Host) (data : UInt8) : Host × Option (Message × Option MotorPosition) :=
  let h := { h with buffer := h.buffer ++ [data] }
  if h.buffer.length = packetSize then h.processResponse else (h, none)

/-- The loop of `receive` over the bytes that are read: the host afterwards, and the responses that
were handled. -/
def Host.receiveBytes : List UInt8 → Host → Host × List (Message × Option MotorPosition)
  | [], h => (h, [])
  | b :: bs, h =>
    ((Host.receiveBytes bs (h.receiveByte b).1).1,
      (h.receiveByte b).2.toList ++ (Host.receiveBytes bs (h.receiveByte b).1).2)

/-! ## Transmitting -/

/-- `transmit`, at the time `now`: the host afterwards, and the message that is written. -/
def Host.transmit (h : Host) (now : Timeval) : Host × Option Message :=
  if h.currentMessage.type = noMessage then (h, none)
  else ({ h with lastSendTime := now, awaitingResponse := true }, some h.currentMessage)

/-- `sendMessage`. -/
def Host.sendMessage (h : Host) (m : Message) (now : Timeval) : Host × Option Message :=
  Host.transmit { h with currentMessage := m } now

/-- What the clock returns to the calls of `CheckMotor` and `CheckQuery`. -/
structure Clock where
  /-- `gettimeofday` at the start. -/
  now : Timeval
  /-- `gettimeofday` in `transmit`. -/
  sent : Timeval
  /-- `gettimeofday` at the end. -/
  after : Timeval
deriving DecidableEq, Repr

/-- `CheckMotor` goes on to send a message. -/
def Host.MotorDue (h : Host) (now : Timeval) : Bool :=
  !h.awaitingResponse && decide (motorPeriod ≤ getMilliSecsBetween h.lastMotorTime now)

/-- The message that `CheckMotor` sends. -/
def Host.motorMessage (h : Host) : Message :=
  createMessageFromSpeed (stepTowards h.rightSpeed h.rightTargetSpeed)
    (stepTowards h.leftSpeed h.leftTargetSpeed)

/-- `CheckMotor`. -/
def Host.checkMotor (h : Host) (t : Clock) : Host × Option Message :=
  if h.MotorDue t.now then
    ({ (h.sendMessage h.motorMessage t.sent).1 with lastMotorTime := t.after },
      (h.sendMessage h.motorMessage t.sent).2)
  else (h, none)

/-- The queries of `CheckQuery`. -/
inductive Query where
  | current (motor : MotorPosition)
  | voltage
deriving DecidableEq, Repr

/-- The query that `CheckQuery` sends at the time `now`, if any. -/
def Host.queryDue (h : Host) (now : Timeval) : Option Query :=
  if h.awaitingResponse then none
  else if currentPeriod < getMilliSecsBetween h.lastQRCurTime now then some (.current .right)
  else if currentPeriod < getMilliSecsBetween h.lastQLCurTime now then some (.current .left)
  else if queryPeriod < getMilliSecsBetween h.lastQVoltTime now then some .voltage
  else none

/-- The message of a query. The data bytes that are not set are those of `junk`. -/
def Query.message (junk : Data) : Query → Message
  | current motor => ⟨currentCmd, { junk with b0 := motor.byte }⟩
  | voltage => ⟨voltageCmd, junk⟩

/-- The time of the last query of the kind, after one has been sent. -/
def Host.noteQuery (h : Host) (after : Timeval) : Query → Host
  | .current .right => { h with lastQRCurTime := after }
  | .current .left => { h with lastQLCurTime := after }
  | .voltage => { h with lastQVoltTime := after }

/-- `CheckQuery`. -/
def Host.checkQuery (h : Host) (t : Clock) (junk : Data) : Host × Option Message :=
  match h.queryDue t.now with
  | none => (h, none)
  | some q =>
    ((h.sendMessage (q.message junk) t.sent).1.noteQuery t.after q,
      (h.sendMessage (q.message junk) t.sent).2)

/-- `TransmitTimeout`. -/
def Host.transmitTimeout (h : Host) (now : Timeval) : Bool :=
  decide (resendTimeout < getMilliSecsBetween h.lastSendTime now)

/-- The last statement of `spinOnce`. -/
def Host.resend (h : Host) (now sent : Timeval) : Host × Option Message :=
  if h.awaitingResponse && h.transmitTimeout now then h.transmit sent else (h, none)

/-! ## The buffer apart -/

section Buffer

variable (h : Host) (buffer : List UInt8)

/-- The handling of a response does not touch the buffer. -/
theorem Host.handleResponse_buffer (response : Message) :
    Host.handleResponse { h with buffer } response =
      ({ (h.handleResponse response).1 with buffer }, (h.handleResponse response).2) := by
  unfold handleResponse
  split_ifs <;> rfl

/-- `transmit` does not touch the buffer. -/
theorem Host.transmit_buffer (now : Timeval) :
    Host.transmit { h with buffer } now =
      ({ (h.transmit now).1 with buffer }, (h.transmit now).2) := by
  unfold transmit
  split_ifs <;> rfl

/-- `CheckMotor` does not touch the buffer. -/
theorem Host.checkMotor_buffer (t : Clock) :
    Host.checkMotor { h with buffer } t =
      ({ (h.checkMotor t).1 with buffer }, (h.checkMotor t).2) := by
  have hsend := Host.transmit_buffer { h with currentMessage := h.motorMessage } buffer t.sent
  unfold checkMotor
  split_ifs with h1 h2 h2
  · simp only [sendMessage, motorMessage] at hsend ⊢
    rw [hsend]
  · exact absurd h1 h2
  · exact absurd h2 h1
  · rfl

/-- `CheckQuery` does not touch the buffer. -/
theorem Host.checkQuery_buffer (t : Clock) (junk : Data) :
    Host.checkQuery { h with buffer } t junk =
      ({ (h.checkQuery t junk).1 with buffer }, (h.checkQuery t junk).2) := by
  have hdue : Host.queryDue { h with buffer } t.now = h.queryDue t.now := rfl
  unfold checkQuery
  rw [hdue]
  cases h.queryDue t.now with
  | none => rfl
  | some q =>
    have hsend := Host.transmit_buffer { h with currentMessage := q.message junk } buffer t.sent
    simp only [sendMessage] at hsend ⊢
    rw [hsend]
    cases q with
    | current motor => cases motor <;> rfl
    | voltage => rfl

/-- The resending does not touch the buffer. -/
theorem Host.resend_buffer (now sent : Timeval) :
    Host.resend { h with buffer } now sent =
      ({ (h.resend now sent).1 with buffer }, (h.resend now sent).2) := by
  have hsend := Host.transmit_buffer h buffer sent
  unfold resend
  split_ifs with h1 h2 h2
  · exact hsend
  · exact absurd h1 h2
  · exact absurd h2 h1
  · rfl

end Buffer

/-! ## What the statements of `spinOnce` do -/

/-- `transmit` writes the current message, if there is one. -/
theorem Host.transmit_of_message (h : Host) (now : Timeval)
    (hm : h.currentMessage.type ≠ noMessage) :
    h.transmit now =
      ({ h with lastSendTime := now, awaitingResponse := true }, some h.currentMessage) :=
  if_neg hm

/-- `CheckMotor` does nothing, or sends the message of the next speeds. -/
theorem Host.checkMotor_cases (h : Host) (t : Clock) :
    h.checkMotor t = (h, none) ∨
      h.MotorDue t.now = true ∧
        h.checkMotor t =
          ({ h with
              currentMessage := h.motorMessage
              lastSendTime := t.sent
              awaitingResponse := true
              lastMotorTime := t.after }, some h.motorMessage) := by
  have hsend := Host.transmit_of_message { h with currentMessage := h.motorMessage } t.sent
    (by simp [motorMessage, createMessageFromSpeed, driveCmd, noMessage])
  unfold checkMotor
  split_ifs with hdue
  · exact .inr ⟨hdue, by rw [sendMessage, hsend]⟩
  · exact .inl rfl

/-- `CheckQuery` does nothing, or sends the query that is due. -/
theorem Host.checkQuery_cases (h : Host) (t : Clock) (junk : Data) :
    h.checkQuery t junk = (h, none) ∨
      ∃ q, h.queryDue t.now = some q ∧
        h.checkQuery t junk =
          (Host.noteQuery
            { h with
              currentMessage := q.message junk
              lastSendTime := t.sent
              awaitingResponse := true } t.after q, some (q.message junk)) := by
  unfold checkQuery
  cases hdue : h.queryDue t.now with
  | none => exact .inl rfl
  | some q =>
    have hsend := Host.transmit_of_message { h with currentMessage := q.message junk } t.sent
      (by cases q <;> simp [Query.message, currentCmd, voltageCmd, noMessage])
    exact .inr ⟨q, rfl, by simp only [sendMessage, hsend]⟩

/-- The last statement of `spinOnce` does nothing, or sends the current message again. -/
theorem Host.resend_cases (h : Host) (now sent : Timeval) :
    h.resend now sent = (h, none) ∨
      h.awaitingResponse = true ∧
        h.resend now sent =
          ({ h with lastSendTime := sent, awaitingResponse := true }, some h.currentMessage) := by
  unfold resend
  split_ifs with hdue
  · -- Without a current message `transmit` does nothing.
    have hawaiting := (Bool.and_eq_true_iff.mp hdue).1
    unfold transmit
    split_ifs
    · exact .inl rfl
    · exact .inr ⟨hawaiting, rfl⟩
  · exact .inl rfl

/-- Noting the time of a query changes only this time. -/
theorem Host.noteQuery_eq (h : Host) (after : Timeval) (q : Query) :
    ∃ r l v, h.noteQuery after q =
      { h with lastQRCurTime := r, lastQLCurTime := l, lastQVoltTime := v } := by
  rcases q with (_ | _) | _
  · exact ⟨h.lastQRCurTime, after, h.lastQVoltTime, rfl⟩
  · exact ⟨after, h.lastQLCurTime, h.lastQVoltTime, rfl⟩
  · exact ⟨h.lastQRCurTime, h.lastQLCurTime, after, rfl⟩

/-- A response leaves the current message, or ends it. -/
theorem Host.handleResponse_currentMessage (h : Host) (response : Message) :
    (h.handleResponse response).1.currentMessage = h.currentMessage ∨
      (h.handleResponse response).1.currentMessage.type = noMessage := by
  unfold handleResponse
  split_ifs
  all_goals first
    | exact .inl rfl
    | exact .inr rfl

/-- A current is stored from a current response that is awaited, for the motor of the current
message. -/
theorem Host.handleResponse_stored {h : Host} {response : Message} {motor : MotorPosition}
    (hstored : (h.handleResponse response).2 = some motor) :
    response.type = currentResp ∧ h.currentMessage.type = currentCmd ∧
      (motor = .left ↔ h.currentMessage.data.b0 = MotorPosition.left.byte) := by
  unfold handleResponse at hstored
  split_ifs at hstored with _ _ _ hresp hcmd hleft
  · obtain rfl := Option.some.inj hstored
    exact ⟨hresp, not_not.mp hcmd, by simp [hleft]⟩
  · obtain rfl := Option.some.inj hstored
    exact ⟨hresp, not_not.mp hcmd, by simp [hleft]⟩

/-! ## Whole frames -/

/-- A byte that does not complete a frame is put into the buffer. -/
theorem Host.receiveByte_of_lt (h : Host) (b : UInt8) (hlen : h.buffer.length + 1 < packetSize) :
    h.receiveByte b = ({ h with buffer := h.buffer ++ [b] }, none) := by
  unfold receiveByte
  rw [if_neg]
  simp only [List.length_append, List.length_singleton]
  omega

/-- The byte that completes the frame of a response has it handled. -/
theorem Host.receiveByte_of_frame (h : Host) (b : UInt8) (response : Message)
    (hframe : h.buffer ++ [b] = response.bytes) :
    h.receiveByte b = ({ (h.handleResponse response).1 with buffer := [] },
      some (response, (h.handleResponse response).2)) := by
  have hhandle := Host.handleResponse_buffer h [] response
  simp only [receiveByte, processResponse, hframe, Message.length_bytes, if_true,
    Message.ofBytes_bytes, hhandle]

end Guillemot.Motor
