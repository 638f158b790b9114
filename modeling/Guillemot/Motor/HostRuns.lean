import Guillemot.Library.StopAndWait
import Guillemot.Motor.Host

/-!
# The host alone

Runs of `MotorControllerHandler` against anything: `setMotorSpeed` and `spinOnce` are called in any
order, with any bytes on the line and any times on the clock. A run is broken down into the steps in
which something can happen (`Host.act`), with an entry for each in the history; `Host.does_act` is
what a step can do, and all invariants are derived from it.

The host sends one request at a time: `StopAndWait` is the discipline, and the request that waits is
the current message while a response is awaited (`Host.waiting`).
-/

namespace Guillemot.Motor

open StopAndWait (Event)

/-! ## Calls -/

/-- What one `spinOnce` meets. -/
structure Spin where
  /-- The bytes that are available to `receive`. -/
  available : List UInt8
  /-- The clock in `CheckMotor`. -/
  motor : Clock
  /-- The clock in `CheckQuery`. -/
  query : Clock
  /-- The data bytes that `CheckQuery` does not set. -/
  junk : Data
  /-- `gettimeofday` in `TransmitTimeout`. -/
  now : Timeval
  /-- `gettimeofday` in the `transmit` after it. -/
  sent : Timeval
deriving DecidableEq, Repr

/-- `receive`. -/
def Host.receive (h : Host) (available : List UInt8) : Host :=
  if h.awaitingResponse then (h.receiveBytes available).1 else h

/-- `spinOnce`. -/
def Host.spinOnce (h : Host) (s : Spin) : Host :=
  ((((h.receive s.available).checkMotor s.motor).1.checkQuery s.query s.junk).1.resend
    s.now s.sent).1

/-- The calls from outside. -/
inductive HostCall where
  | setMotorSpeed (right left : ℤ)
  | spinOnce (s : Spin)
deriving DecidableEq, Repr

/-- One call. -/
def Host.call (h : Host) : HostCall → Host
  | .setMotorSpeed right left => h.setMotorSpeed right left
  | .spinOnce s => h.spinOnce s

/-- Calls one after the other. -/
def Host.calls (h : Host) (cs : List HostCall) : Host := cs.foldl Host.call h

/-! ## Steps -/

/-- The steps of a call. -/
inductive HostStep where
  | setMotorSpeed (right left : ℤ)
  /-- A round of the loop of `receive`. -/
  | byte (b : UInt8)
  | checkMotor (t : Clock)
  | checkQuery (t : Clock) (junk : Data)
  /-- The last statement of `spinOnce`. -/
  | resend (now sent : Timeval)
deriving DecidableEq, Repr

/-- One step, and whether it sends a request, repeats one or handles a response. -/
def Host.act (h : Host) : HostStep → Host × Event Message Message
  | .setMotorSpeed right left => (h.setMotorSpeed right left, .other)
  | .byte b =>
    ((h.receiveByte b).1, (h.receiveByte b).2.elim .other fun handled => .response handled.1)
  | .checkMotor t => ((h.checkMotor t).1, (h.checkMotor t).2.elim .other .request)
  | .checkQuery t junk => ((h.checkQuery t junk).1, (h.checkQuery t junk).2.elim .other .request)
  | .resend now sent => ((h.resend now sent).1, (h.resend now sent).2.elim .other .repeated)

/-- The steps of a call. Bytes are read only if a response is awaited when `receive` is called. -/
def Host.steps (h : Host) : HostCall → List HostStep
  | .setMotorSpeed right left => [.setMotorSpeed right left]
  | .spinOnce s =>
    (if h.awaitingResponse then s.available.map .byte else []) ++
      [.checkMotor s.motor, .checkQuery s.query s.junk, .resend s.now s.sent]

/-- A step, with the host before it. -/
structure HostEntry where
  /-- The host before the step. -/
  before : Host
  /-- The step. -/
  step : HostStep
deriving DecidableEq, Repr

/-- The host after the step. -/
def HostEntry.after (e : HostEntry) : Host := (e.before.act e.step).1

/-- What happens in the step. -/
def HostEntry.event (e : HostEntry) : Event Message Message := (e.before.act e.step).2

/-- Steps one after the other. -/
def Host.run (h : Host) (steps : List HostStep) : Host := steps.foldl (fun h s => (h.act s).1) h

/-- The entries of steps one after the other. -/
def Host.trace : List HostStep → Host → List HostEntry
  | [], _ => []
  | s :: ss, h => ⟨h, s⟩ :: Host.trace ss (h.act s).1

/-- The history of calls one after the other. -/
def Host.history : List HostCall → Host → List HostEntry
  | [], _ => []
  | c :: cs, h => Host.trace (h.steps c) h ++ Host.history cs (h.call c)

/-- The steps of a round of `receive` do what its loop does. -/
theorem Host.run_bytes (h : Host) (bytes : List UInt8) :
    h.run (bytes.map .byte) = (h.receiveBytes bytes).1 := by
  induction bytes generalizing h with
  | nil => rfl
  | cons b bytes ih => exact ih (h.receiveByte b).1

/-- The steps of a call do what the call does. -/
theorem Host.run_steps (h : Host) (c : HostCall) : h.run (h.steps c) = h.call c := by
  cases c with
  | setMotorSpeed right left => rfl
  | spinOnce s =>
    have hreceive : h.run (if h.awaitingResponse then s.available.map .byte else []) =
        h.receive s.available := by
      unfold receive
      split_ifs
      · exact h.run_bytes s.available
      · rfl
    unfold steps run
    rw [List.foldl_append]
    exact congrArg (Host.run · _) hreceive

theorem Host.trace_append (h : Host) (xs ys : List HostStep) :
    h.trace (xs ++ ys) = h.trace xs ++ (h.run xs).trace ys := by
  induction xs generalizing h with
  | nil => rfl
  | cons x xs ih => exact congrArg (_ :: ·) (ih (h.act x).1)

/-- The steps of calls one after the other. -/
def Host.allSteps : List HostCall → Host → List HostStep
  | [], _ => []
  | c :: cs, h => h.steps c ++ Host.allSteps cs (h.call c)

/-- A history is the trace of its steps, which lead where the calls lead. -/
theorem Host.history_eq_trace (h : Host) (cs : List HostCall) :
    h.history cs = h.trace (h.allSteps cs) ∧ h.run (h.allSteps cs) = h.calls cs := by
  induction cs generalizing h with
  | nil => exact ⟨rfl, rfl⟩
  | cons c cs ih =>
    obtain ⟨htrace, hrun⟩ := ih (h.call c)
    constructor
    · rw [history, allSteps, trace_append, run_steps, htrace]
    · rw [allSteps, run, List.foldl_append]
      have hstep := h.run_steps c
      unfold run at hstep hrun
      rw [hstep, hrun]
      rfl

/-- Histories one after the other. -/
theorem Host.history_append (h : Host) (xs ys : List HostCall) :
    h.history (xs ++ ys) = h.history xs ++ (h.calls xs).history ys := by
  induction xs generalizing h with
  | nil => rfl
  | cons c xs ih =>
    simp only [List.cons_append, history, List.append_assoc]
    exact congrArg (_ ++ ·) (ih (h.call c))

/-- No step of a `spinOnce` is a `setMotorSpeed`. -/
theorem Host.allSteps_spins (h : Host) (spins : List Spin) :
    ∀ s ∈ h.allSteps (spins.map .spinOnce), ∀ right left, s ≠ .setMotorSpeed right left := by
  induction spins generalizing h with
  | nil => exact fun s hs => absurd hs List.not_mem_nil
  | cons spin spins ih =>
    intro s hs right left
    rcases List.mem_append.mp hs with hs | hs
    · rintro rfl
      unfold steps at hs
      split_ifs at hs <;> simp at hs
    · exact ih _ s hs right left

/-! ## What a step can do -/

/-- The request is one of those that the host sends. -/
def IsRequest (m : Message) : Prop :=
  m.type = driveCmd ∨ m.type = currentCmd ∨ m.type = voltageCmd

/-- The response is of the type that belongs to a request. -/
def Matches (m response : Message) : Prop :=
  m.type = driveCmd ∧ response.type = driveResp ∨
    m.type = currentCmd ∧ response.type = currentResp ∨
    m.type = voltageCmd ∧ response.type = voltageResp

/-- The response ends the waiting for an answer to a request. -/
def Answers (m response : Message) : Prop := response.type = errorCmd ∨ Matches m response

instance (m response : Message) : Decidable (Answers m response) := by
  unfold Answers Matches
  infer_instance

/-- What the handling of a response can do. -/
inductive Host.Handles (h : Host) (response : Message) : Host → Prop where
  | error (herror : response.type = errorCmd) :
    Handles h response { h with awaitingResponse := false }
  | drive (hresp : response.type = driveResp) (hcmd : h.currentMessage.type = driveCmd) :
    Handles h response
      { h with
        leftSpeed := responseSpeed response.data.b0 response.data.b1
        rightSpeed := responseSpeed response.data.b2 response.data.b3
        currentMessage.type := noMessage
        awaitingResponse := false }
  | current (hresp : response.type = currentResp) (hcmd : h.currentMessage.type = currentCmd)
    (left right : UInt32) :
    Handles h response
      { h with
        leftCurrent := left
        rightCurrent := right
        currentMessage.type := noMessage
        awaitingResponse := false }
  | voltage (hresp : response.type = voltageResp) (hcmd : h.currentMessage.type = voltageCmd) :
    Handles h response
      { h with
        voltage := response.data.toFloat
        currentMessage.type := noMessage
        awaitingResponse := false }
  | ignored (hunanswered : ¬ Answers h.currentMessage response) : Handles h response h

/-- The handling of a response does one of these. -/
theorem Host.handles_handleResponse (h : Host) (response : Message) :
    h.Handles response (h.handleResponse response).1 := by
  -- The types of the responses are told apart.
  have hdriveResp : driveResp ≠ errorCmd ∧ driveResp ≠ currentResp ∧ driveResp ≠ voltageResp := by
    decide
  have hcurrentResp : currentResp ≠ errorCmd ∧ currentResp ≠ driveResp ∧
      currentResp ≠ voltageResp := by
    decide
  have hvoltageResp : voltageResp ≠ errorCmd ∧ voltageResp ≠ driveResp ∧
      voltageResp ≠ currentResp := by
    decide
  unfold handleResponse
  split_ifs with herror hdrive hcmd hcurrent hcmd hleft hvoltage hcmd
  · exact .error herror
  · refine .ignored ?_
    simp [Answers, Matches, hdrive, hcmd, hdriveResp]
  · exact .drive hdrive (not_not.mp hcmd)
  · refine .ignored ?_
    simp [Answers, Matches, hcurrent, hcmd, hcurrentResp]
  · exact .current hcurrent (not_not.mp hcmd) response.data.toFloat h.rightCurrent
  · exact .current hcurrent (not_not.mp hcmd) h.leftCurrent response.data.toFloat
  · refine .ignored ?_
    simp [Answers, Matches, hvoltage, hcmd, hvoltageResp]
  · exact .voltage hvoltage (not_not.mp hcmd)
  · refine .ignored ?_
    simp [Answers, Matches, herror, hdrive, hcurrent, hvoltage]

/-- What a step can do. -/
inductive Host.Does (h : Host) : HostStep → Host → Event Message Message → Prop where
  | setMotorSpeed (right left : ℤ) :
    Does h (.setMotorSpeed right left) (h.setMotorSpeed right left) .other
  /-- At most the buffer changes. -/
  | idle (s : HostStep) (buffer : List UInt8) : Does h s { h with buffer } .other
  | handle (b : UInt8) (response : Message) {h' : Host} (hhandles : h.Handles response h') :
    Does h (.byte b) { h' with buffer := [] } (.response response)
  | motor (t : Clock) (hfree : h.awaitingResponse = false) :
    Does h (.checkMotor t)
      { h with
        currentMessage := h.motorMessage
        lastSendTime := t.sent
        awaitingResponse := true
        lastMotorTime := t.after } (.request h.motorMessage)
  | query (t : Clock) (junk : Data) (q : Query) (hfree : h.awaitingResponse = false) :
    Does h (.checkQuery t junk)
      (Host.noteQuery
        { h with
          currentMessage := q.message junk
          lastSendTime := t.sent
          awaitingResponse := true } t.after q) (.request (q.message junk))
  | resend (now sent : Timeval) (hawaiting : h.awaitingResponse = true) :
    Does h (.resend now sent) { h with lastSendTime := sent, awaitingResponse := true }
      (.repeated h.currentMessage)

/-- Noting the time of a query that was sent changes only this time. -/
theorem Host.noteQuery_sent (h : Host) (t : Clock) (junk : Data) (q : Query) :
    ∃ r l v,
      Host.noteQuery
        { h with
          currentMessage := q.message junk
          lastSendTime := t.sent
          awaitingResponse := true } t.after q =
        { h with
          currentMessage := q.message junk
          lastSendTime := t.sent
          awaitingResponse := true
          lastQRCurTime := r
          lastQLCurTime := l
          lastQVoltTime := v } :=
  Host.noteQuery_eq _ t.after q

/-- A round of the loop of `receive` stores a byte, or handles a response. -/
theorem Host.receiveByte_cases (h : Host) (b : UInt8) :
    (∃ buffer, h.receiveByte b = ({ h with buffer }, none)) ∨
      ∃ response, h.receiveByte b = ({ (h.handleResponse response).1 with buffer := [] },
        some (response, (h.handleResponse response).2)) := by
  unfold receiveByte
  dsimp only
  split_ifs
  · unfold processResponse
    split
    · exact .inl ⟨_, rfl⟩
    · rename_i response _
      refine .inr ⟨response, ?_⟩
      have hhandle := Host.handleResponse_buffer h [] response
      rw [hhandle]
  · exact .inl ⟨_, rfl⟩

/-- A step does one of these. -/
theorem Host.does_act (h : Host) (s : HostStep) : h.Does s (h.act s).1 (h.act s).2 := by
  cases s with
  | setMotorSpeed right left => exact .setMotorSpeed right left
  | byte b =>
    simp only [act]
    rcases h.receiveByte_cases b with ⟨buffer, hbyte⟩ | ⟨response, hbyte⟩
    · rw [hbyte]
      exact .idle _ buffer
    · rw [hbyte]
      exact .handle b response (h.handles_handleResponse response)
  | checkMotor t =>
    simp only [act]
    rcases h.checkMotor_cases t with hnone | ⟨hdue, hsent⟩
    · rw [hnone]
      exact .idle _ h.buffer
    · have hfree : h.awaitingResponse = false := by
        simpa using (Bool.and_eq_true_iff.mp hdue).1
      rw [hsent]
      exact .motor t hfree
  | checkQuery t junk =>
    simp only [act]
    rcases h.checkQuery_cases t junk with hnone | ⟨q, hdue, hsent⟩
    · rw [hnone]
      exact .idle _ h.buffer
    · have hfree : h.awaitingResponse = false := by
        unfold queryDue at hdue
        split_ifs at hdue with hawaiting
        all_goals simpa using hawaiting
      rw [hsent]
      exact .query t junk q hfree
  | resend now sent =>
    simp only [act]
    rcases h.resend_cases now sent with hnone | ⟨hawaiting, hsent⟩
    · rw [hnone]
      exact .idle _ h.buffer
    · rw [hsent]
      exact .resend now sent hawaiting

/-! ## Invariants -/

/-- What every step keeps holds before every step of a run, and at its end. -/
theorem Host.forall_trace {I : Host → Prop} (hact : ∀ h s, I h → I (h.act s).1) {h : Host}
    (hI : I h) (steps : List HostStep) :
    (∀ e ∈ h.trace steps, I e.before) ∧ I (h.run steps) := by
  induction steps generalizing h with
  | nil => exact ⟨fun e he => absurd he List.not_mem_nil, hI⟩
  | cons s steps ih =>
    obtain ⟨hall, hend⟩ := ih (hact h s hI)
    refine ⟨fun e he => ?_, hend⟩
    rcases List.mem_cons.mp he with rfl | he
    · exact hI
    · exact hall e he

/-- What every step keeps holds before every step of a history, and at its end. -/
theorem Host.forall_history {I : Host → Prop} (hact : ∀ h s, I h → I (h.act s).1) {h : Host}
    (hI : I h) (cs : List HostCall) :
    (∀ e ∈ h.history cs, I e.before) ∧ I (h.calls cs) := by
  obtain ⟨htrace, hrun⟩ := h.history_eq_trace cs
  rw [htrace, ← hrun]
  exact Host.forall_trace hact hI _

/-! ## One request at a time -/

/-- The request that waits for its answer. -/
def Host.waiting (h : Host) : Option Message :=
  if h.awaitingResponse then some h.currentMessage else none

theorem Host.waiting_of_free {h : Host} (hfree : h.awaitingResponse = false) :
    h.waiting = none := by
  simp [waiting, hfree]

theorem Host.waiting_of_awaiting {h : Host} (hawaiting : h.awaitingResponse = true) :
    h.waiting = some h.currentMessage := by
  simp [waiting, hawaiting]

/-- A response that is handled ends the waiting for the request that it answers. -/
theorem Host.Handles.waiting {h h' : Host} {response : Message} (hhandles : h.Handles response h') :
    h'.waiting = h.waiting.filter fun m => ¬ Answers m response := by
  -- A response that answers the current message leaves nothing to wait for.
  have hanswered : Answers h.currentMessage response →
      h.waiting.filter (fun m => ¬ Answers m response) = none := by
    intro hanswers
    unfold Host.waiting
    split_ifs
    · simp [hanswers]
    · rfl
  cases hhandles with
  | error herror => rw [hanswered (.inl herror)]; rfl
  | drive hresp hcmd => rw [hanswered (.inr (.inl ⟨hcmd, hresp⟩))]; rfl
  | current hresp hcmd => rw [hanswered (.inr (.inr (.inl ⟨hcmd, hresp⟩)))]; rfl
  | voltage hresp hcmd => rw [hanswered (.inr (.inr (.inr ⟨hcmd, hresp⟩)))]; rfl
  | ignored hunanswered =>
    unfold Host.waiting
    split_ifs
    · simp [Option.filter, hunanswered]
    · rfl

/-- Every step is in order, and leaves the request that waits behind it. -/
theorem Host.Does.inOrder {h h' : Host} {s : HostStep} {e : Event Message Message}
    (hdoes : h.Does s h' e) :
    StopAndWait.InOrder h.waiting e ∧ StopAndWait.next Answers h.waiting e = h'.waiting := by
  cases hdoes with
  | setMotorSpeed right left => exact ⟨trivial, rfl⟩
  | idle s buffer => exact ⟨trivial, rfl⟩
  | handle b response hhandles => exact ⟨trivial, hhandles.waiting.symm⟩
  | motor t hfree => exact ⟨Host.waiting_of_free hfree, rfl⟩
  | query t junk q hfree =>
    refine ⟨Host.waiting_of_free hfree, ?_⟩
    obtain ⟨r, l, v, hnoted⟩ := h.noteQuery_sent t junk q
    rw [hnoted]
    rfl
  | resend now sent hawaiting =>
    exact ⟨Host.waiting_of_awaiting hawaiting, Host.waiting_of_awaiting hawaiting⟩

/-- The events of a run are in order. -/
theorem Host.trace_disciplined (h : Host) (steps : List HostStep) :
    StopAndWait.Disciplined Answers h.waiting ((h.trace steps).map HostEntry.event) := by
  induction steps generalizing h with
  | nil => trivial
  | cons s steps ih =>
    obtain ⟨hnow, hnext⟩ := (h.does_act s).inOrder
    refine ⟨hnow, ?_⟩
    rw [show HostEntry.event ⟨h, s⟩ = (h.act s).2 from rfl, hnext]
    exact ih (h.act s).1

/-- What is awaited is one of the requests. -/
def Host.AwaitsRequest (h : Host) : Prop := h.awaitingResponse = true → IsRequest h.currentMessage

/-- The steps keep that what is awaited is one of the requests. -/
theorem Host.AwaitsRequest.act {h : Host} (hawaits : h.AwaitsRequest) (s : HostStep) :
    (h.act s).1.AwaitsRequest := by
  have hdoes := h.does_act s
  generalize (h.act s).1 = h', (h.act s).2 = e at hdoes
  cases hdoes with
  | setMotorSpeed right left => exact hawaits
  | idle s buffer => exact hawaits
  | handle b response hhandles =>
    cases hhandles with
    | ignored => exact hawaits
    | error | drive | current | voltage => exact nofun
  | motor t hfree => exact fun _ => .inl rfl
  | query t junk q hfree =>
    obtain ⟨r, l, v, hnoted⟩ := h.noteQuery_sent t junk q
    rw [hnoted]
    intro _
    cases q with
    | current motor => exact .inr (.inl rfl)
    | voltage => exact .inr (.inr rfl)
  | resend now sent hawaiting => exact fun _ => hawaits hawaiting

/-- What may change in a step: the current message becomes another request only when that is sent,
and the speeds, the currents and the voltage change only when the response to a request for them is
handled. -/
structure Host.Changes (h h' : Host) (e : Event Message Message) : Prop where
  currentMessage : IsRequest h'.currentMessage →
    h'.currentMessage = h.currentMessage ∨ e = .request h'.currentMessage
  speeds : h'.leftSpeed ≠ h.leftSpeed ∨ h'.rightSpeed ≠ h.rightSpeed →
    ∃ response, e = .response response ∧ response.type = driveResp ∧
      h.currentMessage.type = driveCmd
  currents : h'.leftCurrent ≠ h.leftCurrent ∨ h'.rightCurrent ≠ h.rightCurrent →
    ∃ response, e = .response response ∧ response.type = currentResp ∧
      h.currentMessage.type = currentCmd
  voltage : h'.voltage ≠ h.voltage →
    ∃ response, e = .response response ∧ response.type = voltageResp ∧
      h.currentMessage.type = voltageCmd

/-- A current message without a type is no request. -/
theorem not_isRequest_noMessage (d : Data) : ¬ IsRequest ⟨noMessage, d⟩ := by
  unfold IsRequest
  dsimp only
  decide

/-- A step that keeps speeds, currents and voltage. -/
theorem Host.Changes.of_same {h h' : Host} {e : Event Message Message}
    (hmessage : IsRequest h'.currentMessage →
      h'.currentMessage = h.currentMessage ∨ e = .request h'.currentMessage)
    (hleft : h'.leftSpeed = h.leftSpeed) (hright : h'.rightSpeed = h.rightSpeed)
    (hleftCurrent : h'.leftCurrent = h.leftCurrent)
    (hrightCurrent : h'.rightCurrent = h.rightCurrent) (hvoltage : h'.voltage = h.voltage) :
    h.Changes h' e where
  currentMessage := hmessage
  speeds hne := by simp [hleft, hright] at hne
  currents hne := by simp [hleftCurrent, hrightCurrent] at hne
  voltage hne := absurd hvoltage hne

/-- No step changes anything else. -/
theorem Host.Does.changes {h h' : Host} {s : HostStep} {e : Event Message Message}
    (hdoes : h.Does s h' e) : h.Changes h' e := by
  cases hdoes with
  | setMotorSpeed right left => exact .of_same (fun _ => .inl rfl) rfl rfl rfl rfl rfl
  | idle s buffer => exact .of_same (fun _ => .inl rfl) rfl rfl rfl rfl rfl
  | handle b response hhandles =>
    -- What is accepted ends the current message.
    have hended : IsRequest ⟨noMessage, h.currentMessage.data⟩ → False :=
      not_isRequest_noMessage h.currentMessage.data
    cases hhandles with
    | error herror => exact .of_same (fun _ => .inl rfl) rfl rfl rfl rfl rfl
    | ignored hunanswered => exact .of_same (fun _ => .inl rfl) rfl rfl rfl rfl rfl
    | drive hresp hcmd =>
      refine ⟨fun hreq => (hended hreq).elim, fun _ => ⟨response, rfl, hresp, hcmd⟩, ?_, ?_⟩
      · simp
      · simp
    | current hresp hcmd left right =>
      refine ⟨fun hreq => (hended hreq).elim, ?_, fun _ => ⟨response, rfl, hresp, hcmd⟩, ?_⟩
      · simp
      · simp
    | voltage hresp hcmd =>
      refine ⟨fun hreq => (hended hreq).elim, ?_, ?_, fun _ => ⟨response, rfl, hresp, hcmd⟩⟩
      · simp
      · simp
  | motor t hfree => exact .of_same (fun _ => .inr rfl) rfl rfl rfl rfl rfl
  | query t junk q hfree =>
    obtain ⟨r, l, v, hnoted⟩ := h.noteQuery_sent t junk q
    rw [hnoted]
    exact .of_same (fun _ => .inr rfl) rfl rfl rfl rfl rfl
  | resend now sent hawaiting => exact .of_same (fun _ => .inl rfl) rfl rfl rfl rfl rfl

/-- The host as it is constructed waits for nothing. -/
theorem Host.new_waiting (junk : Host) : (Host.new junk).waiting = none := rfl

/-- In every run of the host, what is awaited is one of the requests; between two requests that are
sent there is a response to the first one, or an error; what is sent again is the last request, with
the same bytes; and what the steps change is what their responses allow. -/
theorem stop_and_wait (junk : Host) (cs : List HostCall) :
    let log := (Host.new junk).history cs
    ((∀ e ∈ log, e.before.AwaitsRequest) ∧ ((Host.new junk).calls cs).AwaitsRequest) ∧
      (∀ before e between e' after m m', log = before ++ e :: (between ++ e' :: after) →
        e.event = .request m → e'.event = .request m' →
          ∃ e'' ∈ between, ∃ response, e''.event = .response response ∧ Answers m response) ∧
      (∀ before e after m, log = before ++ e :: after → e.event = .repeated m →
        ∃ b e₀ c m₀, before = b ++ e₀ :: c ∧ e₀.event = .request m₀ ∧ m.bytes = m₀.bytes ∧
          ∀ e' ∈ c, ∀ m', e'.event ≠ .request m') ∧
      ∀ e ∈ log, e.before.Changes e.after e.event := by
  intro log
  have hlog : log = (Host.new junk).trace ((Host.new junk).allSteps cs) :=
    ((Host.new junk).history_eq_trace cs).1
  have hdisciplined := (Host.new junk).trace_disciplined ((Host.new junk).allSteps cs)
  rw [← hlog, Host.new_waiting] at hdisciplined
  refine ⟨?_, ?_, ?_, fun e _ => (e.before.does_act e.step).changes⟩
  · exact Host.forall_history (fun h s hawaits => hawaits.act s) nofun cs
  · intro before e between e' after m m' hsplit he he'
    rw [hsplit, List.map_append, List.map_cons, List.map_append, List.map_cons, he, he']
      at hdisciplined
    obtain ⟨response, hresponse, hanswers⟩ := StopAndWait.answer_between hdisciplined
    obtain ⟨e'', hmem, hevent⟩ := List.mem_map.mp hresponse
    exact ⟨e'', hmem, response, hevent, hanswers⟩
  · intro before e after m hsplit he
    rw [hsplit, List.map_append, List.map_cons, he] at hdisciplined
    obtain ⟨b, c, hbefore, hlast⟩ := StopAndWait.repeated_is_last hdisciplined
    -- The entry of the request among those before.
    obtain ⟨xs, ys, rfl, rfl, hys⟩ := List.map_eq_append_iff.mp hbefore
    obtain ⟨e₀, zs, rfl, he₀, rfl⟩ := List.map_eq_cons_iff.mp hys
    refine ⟨xs, e₀, zs, m, rfl, he₀, rfl, fun e' he' m' hm' => ?_⟩
    exact hlast m' (List.mem_map.mpr ⟨e', he', hm'⟩)

end Guillemot.Motor
