import Guillemot.Library.Steps
import Guillemot.Motor.History

/-!
# Host, firmware, and the two lines between them

The host runs `spinOnce`, with its four statements in order; `setMotorSpeed` is called between two
runs. The firmware runs `loop`, with its two parts in order. The lines deliver bytes in order and
after any time: a step that reads says how many bytes have arrived by then. A message that is
written may be lost on the line as a whole (`lost`). The `History` of the system is read by no step.

Nothing but whole messages matters: `Aligned` says that each line, together with the buffer at its
end, holds the frames of the messages on their way, and `Exchange` is the system with the messages
in their place. `Invariant.of_reaches` is the rule that the other modules use: what every step of
the exchange keeps holds in every run of the system.
-/

namespace Guillemot.Motor

open Relation (ReflTransGen)

/-! ## The system -/

/-- The statement of `spinOnce` that is next. -/
inductive HostPhase where
  | receive
  | checkMotor
  | checkQuery
  | resend
deriving DecidableEq, Repr

/-- The part of `loop` that is next. -/
inductive FirmwarePhase where
  | dispatch
  | measureAndCheck
deriving DecidableEq, Repr

/-- Host, firmware, and lines. -/
structure System where
  /-- The host. -/
  host : Host
  /-- Where the host is. -/
  hostPhase : HostPhase
  /-- The bytes on the line to the firmware that have not arrived. -/
  down : List UInt8
  /-- The firmware. -/
  firmware : Firmware
  /-- Where the firmware is. -/
  firmwarePhase : FirmwarePhase
  /-- The bytes on the line to the host that the host has not read. -/
  up : List UInt8
  /-- What has happened so far. -/
  history : History
deriving DecidableEq, Repr

/-- The steps of the system, with what comes from outside. -/
inductive Label where
  /-- `setMotorSpeed`, called by a subscriber. -/
  | setMotorSpeed (right left : ℤ)
  /-- `receive()`, when `k` bytes have arrived. -/
  | receive (k : ℕ)
  /-- `CheckMotor()`. -/
  | checkMotor (t : Clock) (lost : Bool)
  /-- `CheckQuery()`, with the bytes that it leaves uninitialised in a message. -/
  | checkQuery (t : Clock) (junk : Data) (lost : Bool)
  /-- The last statement of `spinOnce`. -/
  | resend (now sent : Timeval) (lost : Bool)
  /-- The first part of `loop`, when `k` more bytes have arrived. -/
  | dispatch (k : ℕ) (now : UInt32) (lost : Bool)
  /-- The second part of `loop`. -/
  | measureAndCheck (r : Readings)
deriving DecidableEq, Repr

/-- The step loses no message. -/
def Label.lossless : Label → Bool
  | .checkMotor _ lost | .checkQuery _ _ lost | .resend _ _ lost | .dispatch _ _ lost => !lost
  | _ => true

/-- One `spinOnce` at the time `t`, when `k` bytes have arrived; nothing is lost. -/
def spinOnce (t : Timeval) (k : ℕ) : List Label :=
  [.receive k, .checkMotor ⟨t, t, t⟩ false, .checkQuery ⟨t, t, t⟩ ⟨0, 0, 0, 0⟩ false,
    .resend t t false]

/-- One `loop` at the time `now`, when `k` more bytes have arrived and `killed` and the currents are
read; nothing is lost. -/
def loop (k : ℕ) (now : UInt32) (killed lMotorC rMotorC : ℕ) : List Label :=
  [.dispatch k now false, .measureAndCheck (.at killed lMotorC rMotorC now)]

/-- The message that a line carries of one that is written. -/
def carried (lost : Bool) (m : Option Message) : Option Message := if lost then none else m

/-- The system after a statement of the host that may have written a message. -/
def System.sends (s : System) (result : Host × Option Message) (lost : Bool) (phase : HostPhase) :
    System :=
  { s with
    host := result.1
    hostPhase := phase
    down := s.down ++ wire (carried lost result.2).toList
    history := s.history.send (carried lost result.2).toList }

/-- The history of responses that were handled. -/
def History.takes (h : History) (taken : List (Message × Option MotorPosition)) : History :=
  taken.foldl (fun h r => h.take r.1 r.2) h

/-- The history after an attempt of the firmware to dispatch a message. -/
def History.serves (h : History) (before after : Pwm) (lost : Bool)
    (served : Option (Message × Option Message)) : History :=
  match served with
  | none => h
  | some (m, reply) => h.serve ⟨m, carried lost reply, before, after⟩

/-- One step; `none` when it is not its turn. -/
def System.step (s : System) : Label → Option System
  | .setMotorSpeed right left =>
    if s.hostPhase = .receive then some { s with host := s.host.setMotorSpeed right left } else none
  | .receive k =>
    if s.hostPhase = .receive then
      if s.host.awaitingResponse then
        some { s with
          host := (s.host.receiveBytes (s.up.take k)).1
          hostPhase := .checkMotor
          up := s.up.drop k
          history := s.history.takes (s.host.receiveBytes (s.up.take k)).2 }
      else some { s with hostPhase := .checkMotor } -- Nothing is read.
    else none
  | .checkMotor t lost =>
    if s.hostPhase = .checkMotor then some (s.sends (s.host.checkMotor t) lost .checkQuery)
    else none
  | .checkQuery t junk lost =>
    if s.hostPhase = .checkQuery then some (s.sends (s.host.checkQuery t junk) lost .resend)
    else none
  | .resend now sent lost =>
    if s.hostPhase = .resend then some (s.sends (s.host.resend now sent) lost .receive) else none
  | .dispatch k now lost =>
    if s.firmwarePhase = .dispatch then
      let (fw, served) :=
        Firmware.dispatch { s.firmware with rx := s.firmware.rx ++ s.down.take k } now
      some { s with
        firmware := fw
        firmwarePhase := .measureAndCheck
        down := s.down.drop k
        up := s.up ++ wire (carried lost (served.bind Prod.snd)).toList
        history := s.history.serves s.firmware.pwm fw.pwm lost served }
    else none
  | .measureAndCheck r =>
    if s.firmwarePhase = .measureAndCheck then
      some { s with firmware := s.firmware.measureAndCheck r, firmwarePhase := .dispatch }
    else none

/-- The system at its start. -/
def System.init (junk : Host) (now : UInt32) : System where
  host := .new junk
  hostPhase := .receive
  down := []
  firmware := .setup now
  firmwarePhase := .dispatch
  up := []
  history := .empty

/-! ## The exchange of whole messages -/

/-- The system without buffers and lines: the messages on their way are those of the history. -/
structure Exchange where
  /-- The host, with an empty buffer. -/
  host : Host
  /-- The firmware, with an empty receive buffer. -/
  firmware : Firmware
  /-- What has happened so far. -/
  history : History
deriving DecidableEq, Repr

/-- The exchange of a system. -/
def System.exchange (s : System) : Exchange :=
  ⟨{ s.host with buffer := [] }, { s.firmware with rx := [] }, s.history⟩

namespace Exchange

variable (x : Exchange)

/-- `setMotorSpeed`. -/
def setMotorSpeed (right left : ℤ) : Exchange :=
  { x with host := x.host.setMotorSpeed right left }

/-- The host handles a response. -/
def take (response : Message) : Exchange :=
  { x with
    host := (x.host.handleResponse response).1
    history := x.history.take response (x.host.handleResponse response).2 }

/-- A statement of the host that may have written a message. -/
def sends (result : Host × Option Message) (lost : Bool) : Exchange :=
  { x with host := result.1, history := x.history.send (carried lost result.2).toList }

/-- The firmware dispatches a message. -/
def serve (m : Message) (now : UInt32) (lost : Bool) : Exchange :=
  { x with
    firmware := (x.firmware.handle m now).1
    history := x.history.serve ⟨m, carried lost (x.firmware.handle m now).2, x.firmware.pwm,
      (x.firmware.handle m now).1.pwm⟩ }

/-- The second part of `loop`. -/
def measureAndCheck (r : Readings) : Exchange :=
  { x with firmware := x.firmware.measureAndCheck r }

end Exchange

/-- A statement that sends nothing keeps everything. -/
theorem Exchange.sends_none (x : Exchange) (lost : Bool) : x.sends (x.host, none) lost = x := by
  cases lost <;> simp [Exchange.sends, carried, History.send]

section Statements

variable {P : Exchange → Prop} {x : Exchange} {lost : Bool} (hx : P x)

include hx in
/-- What is kept when the next speeds are sent is kept by `CheckMotor`. -/
theorem Exchange.keeps_checkMotor {t : Clock}
    (hsend : x.host.MotorDue t.now = true →
      P (x.sends ({ x.host with
        currentMessage := x.host.motorMessage
        lastSendTime := t.sent
        awaitingResponse := true
        lastMotorTime := t.after }, some x.host.motorMessage) lost)) :
    P (x.sends (x.host.checkMotor t) lost) := by
  rcases x.host.checkMotor_cases t with hnone | ⟨hdue, hsome⟩
  · rw [hnone, Exchange.sends_none]
    exact hx
  · rw [hsome]
    exact hsend hdue

include hx in
/-- What is kept when the query that is due is sent is kept by `CheckQuery`. -/
theorem Exchange.keeps_checkQuery {t : Clock} {junk : Data}
    (hsend : ∀ q r l v, x.host.queryDue t.now = some q →
      P (x.sends ({ x.host with
        currentMessage := q.message junk
        lastSendTime := t.sent
        awaitingResponse := true
        lastQRCurTime := r
        lastQLCurTime := l
        lastQVoltTime := v }, some (q.message junk)) lost)) :
    P (x.sends (x.host.checkQuery t junk) lost) := by
  rcases x.host.checkQuery_cases t junk with hnone | ⟨q, hdue, hsome⟩
  · rw [hnone, Exchange.sends_none]
    exact hx
  · obtain ⟨r, l, v, hnote⟩ := Host.noteQuery_eq _ t.after q
    rw [hsome, hnote]
    exact hsend q r l v hdue

include hx in
/-- What is kept when the awaited message is sent again is kept by the last statement of
`spinOnce`. -/
theorem Exchange.keeps_resend {now sent : Timeval}
    (hsend : x.host.awaitingResponse = true →
      P (x.sends ({ x.host with lastSendTime := sent, awaitingResponse := true },
        some x.host.currentMessage) lost)) :
    P (x.sends (x.host.resend now sent) lost) := by
  rcases x.host.resend_cases now sent with hnone | ⟨hawaiting, hsome⟩
  · rw [hnone, Exchange.sends_none]
    exact hx
  · rw [hsome]
    exact hsend hawaiting

end Statements

/-- A property of the exchange that its steps keep, those of host and firmware that `C` constrains
under `C`. -/
structure Invariant (C : Exchange → Label → Prop) (I : Exchange → Prop) : Prop where
  /-- Setting the target speeds. -/
  setMotorSpeed : ∀ x right left, I x → I (x.setMotorSpeed right left)
  /-- Handling the first of the answers on their way. -/
  take : ∀ x request response rest, x.history.Linked →
    x.history.answers = (request, response) :: rest → I x → I (x.take response)
  /-- `CheckMotor`. -/
  checkMotor : ∀ x t lost, x.history.Linked → C x (.checkMotor t lost) → I x →
    I (x.sends (x.host.checkMotor t) lost)
  /-- `CheckQuery`. -/
  checkQuery : ∀ x t junk lost, x.history.Linked → C x (.checkQuery t junk lost) → I x →
    I (x.sends (x.host.checkQuery t junk) lost)
  /-- Resending. -/
  resend : ∀ x now sent lost, x.history.Linked → I x → I (x.sends (x.host.resend now sent) lost)
  /-- Dispatching the first of the requests on their way. -/
  serve : ∀ x m rest now lost, x.history.Linked → x.history.requests = m :: rest → I x →
    I (x.serve m now lost)
  /-- The second part of `loop`. -/
  measureAndCheck : ∀ x r, C x (.measureAndCheck r) → I x → I (x.measureAndCheck r)

/-! ## The lines hold whole messages -/

/-- Each line, with the buffer at its end, holds the frames of the messages on their way. -/
structure Aligned (s : System) : Prop where
  /-- The lines deliver in order. -/
  linked : s.history.Linked
  /-- The line to the firmware. -/
  down : s.firmware.rx ++ s.down = wire s.history.requests
  /-- The line to the host. -/
  up : s.host.buffer ++ s.up = wire (s.history.answers.map Prod.snd)
  /-- A whole response does not stay in the buffer. -/
  buffer_lt : s.host.buffer.length < packetSize

/-- At the start nothing is on its way. -/
theorem System.init_aligned (junk : Host) (now : UInt32) : Aligned (.init junk now) :=
  ⟨History.empty_linked, rfl, rfl, packetSize_pos⟩

namespace Invariant

variable {C : Exchange → Label → Prop} {I : Exchange → Prop}

/-- The loop of `receive`, byte by byte: a byte moves into the buffer, or completes the first of the
answers on their way. -/
theorem receiveBytes (hI : Invariant C I) (fw : Firmware) (bytes up : List UInt8) {host : Host}
    {history : History} (hl : history.Linked)
    (hup : host.buffer ++ (bytes ++ up) = wire (history.answers.map Prod.snd))
    (hlt : host.buffer.length < packetSize) (hx : I ⟨{ host with buffer := [] }, fw, history⟩) :
    (history.takes (host.receiveBytes bytes).2).Linked ∧
      (history.takes (host.receiveBytes bytes).2).requests = history.requests ∧
      (host.receiveBytes bytes).1.buffer ++ up =
        wire ((history.takes (host.receiveBytes bytes).2).answers.map Prod.snd) ∧
      (host.receiveBytes bytes).1.buffer.length < packetSize ∧
      I ⟨{ (host.receiveBytes bytes).1 with buffer := [] }, fw,
        history.takes (host.receiveBytes bytes).2⟩ := by
  induction bytes generalizing host history with
  | nil => exact ⟨hl, rfl, hup, hlt, hx⟩
  | cons b bytes ih =>
    rw [List.cons_append, List.append_cons] at hup
    rcases Nat.lt_or_ge (host.buffer.length + 1) packetSize with hshort | hfull
    · -- The byte only moves into the buffer.
      unfold Host.receiveBytes
      rw [host.receiveByte_of_lt b hshort]
      refine @ih { host with buffer := host.buffer ++ [b] } history hl hup ?_ hx
      simp only [List.length_append, List.length_singleton]
      exact hshort
    · -- The byte completes the first frame on the line.
      obtain ⟨m, ms, hms, hframe, hrest⟩ := split_wire hup (by
        rw [List.length_append, List.length_singleton]
        omega)
      obtain ⟨⟨request, response⟩, rest, ha, rfl, hmap⟩ := List.map_eq_cons_iff.mp hms
      have hnext := hI.take ⟨{ host with buffer := [] }, fw, history⟩ request response rest hl ha hx
      have hhandle := Host.handleResponse_buffer host [] response
      simp only [Exchange.take, hhandle] at hnext
      unfold Host.receiveBytes
      rw [host.receiveByte_of_frame b response hframe]
      have hrest' : bytes ++ up =
          wire ((history.take response (host.handleResponse response).2).answers.map Prod.snd) := by
        rw [History.answers_take ha, hrest, hmap]
      exact @ih { (host.handleResponse response).1 with buffer := [] }
        (history.take response (host.handleResponse response).2) (hl.take ha) hrest'
        packetSize_pos hnext

/-- A statement of the host that may have written a message: what it wrote is put on the line as a
whole. The statement is known not to touch the buffer. -/
theorem sends {s : System} (ha : Aligned s) (result : Host × Option Message) (lost : Bool)
    (phase : HostPhase) (hbuffer : result.1.buffer = s.host.buffer)
    (hnext : I (s.exchange.sends ({ result.1 with buffer := [] }, result.2) lost)) :
    Aligned (s.sends result lost phase) ∧ I (s.sends result lost phase).exchange := by
  obtain ⟨hl, hdown, hup, hlt⟩ := ha
  refine ⟨⟨hl.send _, ?_, ?_, ?_⟩, hnext⟩
  · unfold System.sends
    rw [hl.requests_send, wire_append, ← hdown, List.append_assoc]
  · unfold System.sends
    rw [hbuffer, History.answers_send, hup]
  · unfold System.sends
    rw [hbuffer]
    exact hlt

/-- The first part of `loop`: it dispatches nothing, or the first of the messages on their way. -/
theorem dispatch (hI : Invariant C I) {s t : System} {k : ℕ} {now : UInt32} {lost : Bool}
    (ha : Aligned s) (hx : I s.exchange) (h : s.step (.dispatch k now lost) = some t) :
    Aligned t ∧ I t.exchange := by
  obtain ⟨hl, hdown, hup, hlt⟩ := ha
  simp only [System.step] at h
  split_ifs at h
  obtain rfl := Option.some.inj h
  -- The bytes that arrive move from the line to the receive buffer.
  rw [← List.take_append_drop k s.down, ← List.append_assoc] at hdown
  rcases next_wire hdown with hnext | ⟨m, ms, rx, hms, hnext, hrest⟩
  · -- No whole frame has arrived: the bytes only move into the receive buffer.
    rw [Firmware.dispatch_of_none { s.firmware with rx := s.firmware.rx ++ s.down.take k } _ hnext]
    refine ⟨⟨hl, hdown, ?_, hlt⟩, hx⟩
    simpa [carried, History.serves] using hup
  · -- The frame that is read is that of the first message on its way.
    have hdispatch :
        Firmware.dispatch { s.firmware with rx := s.firmware.rx ++ s.down.take k } now =
          ({ (s.firmware.handle m now).1 with rx },
            some (m, (s.firmware.handle m now).2)) := by
      rw [Firmware.dispatch_of_frame { s.firmware with rx := s.firmware.rx ++ s.down.take k } _
        hnext, Firmware.handle_with_rx]
    have hserve := hI.serve s.exchange m ms now lost hl hms hx
    unfold System.exchange Exchange.serve at hserve
    rw [Firmware.handle_with_rx] at hserve
    rw [hdispatch]
    refine ⟨⟨hl.serve hms, ?_, ?_, hlt⟩, hserve⟩
    · unfold History.serves
      rw [History.requests_serve hms, hrest]
    · simp only [History.serves, Option.bind_some]
      -- The answer, unless it is lost, is put behind those on their way.
      rw [hl.answers_serve, List.map_append, wire_append, ← hup, List.append_assoc]
      cases carried lost (s.firmware.handle m now).2 <;> rfl

/-- One step of the system keeps the lines aligned, and what every step of the exchange keeps. -/
theorem step (hI : Invariant C I) {s t : System} {l : Label} (ha : Aligned s)
    (hx : I s.exchange) (hC : C s.exchange l) (h : s.step l = some t) :
    Aligned t ∧ I t.exchange := by
  cases l with
  | setMotorSpeed right left =>
    obtain ⟨hl, hdown, hup, hlt⟩ := ha
    simp only [System.step] at h
    split_ifs at h
    obtain rfl := Option.some.inj h
    exact ⟨⟨hl, hdown, hup, hlt⟩, hI.setMotorSpeed _ right left hx⟩
  | receive k =>
    obtain ⟨hl, hdown, hup, hlt⟩ := ha
    simp only [System.step] at h
    split_ifs at h
    · obtain rfl := Option.some.inj h
      rw [← List.take_append_drop k s.up] at hup
      obtain ⟨hl', hreq, hup', hlt', hx'⟩ :=
        hI.receiveBytes { s.firmware with rx := [] } (s.up.take k) (s.up.drop k) hl hup hlt hx
      exact ⟨⟨hl', by rw [hreq]; exact hdown, hup', hlt'⟩, hx'⟩
    · -- A host that waits for no response reads nothing.
      obtain rfl := Option.some.inj h
      exact ⟨⟨hl, hdown, hup, hlt⟩, hx⟩
  | checkMotor t lost =>
    simp only [System.step] at h
    split_ifs at h
    obtain rfl := Option.some.inj h
    have hnext := hI.checkMotor s.exchange t lost ha.linked hC hx
    unfold System.exchange at hnext
    rw [Host.checkMotor_buffer] at hnext
    have hbuffer := congrArg (·.1.buffer) (s.host.checkMotor_buffer s.host.buffer t)
    exact sends ha _ lost _ hbuffer hnext
  | checkQuery t junk lost =>
    simp only [System.step] at h
    split_ifs at h
    obtain rfl := Option.some.inj h
    have hnext := hI.checkQuery s.exchange t junk lost ha.linked hC hx
    unfold System.exchange at hnext
    rw [Host.checkQuery_buffer] at hnext
    have hbuffer := congrArg (·.1.buffer) (s.host.checkQuery_buffer s.host.buffer t junk)
    exact sends ha _ lost _ hbuffer hnext
  | resend now sent lost =>
    simp only [System.step] at h
    split_ifs at h
    obtain rfl := Option.some.inj h
    have hnext := hI.resend s.exchange now sent lost ha.linked hx
    unfold System.exchange at hnext
    rw [Host.resend_buffer] at hnext
    have hbuffer := congrArg (·.1.buffer) (s.host.resend_buffer s.host.buffer now sent)
    exact sends ha _ lost _ hbuffer hnext
  | dispatch k now lost => exact hI.dispatch ha hx h
  | measureAndCheck r =>
    obtain ⟨hl, hdown, hup, hlt⟩ := ha
    simp only [System.step] at h
    split_ifs at h
    obtain rfl := Option.some.inj h
    have hrx := s.firmware.measureAndCheck_rx r
    have hnext := hI.measureAndCheck s.exchange r hC hx
    unfold System.exchange Exchange.measureAndCheck at hnext
    rw [Firmware.measureAndCheck_with_rx] at hnext
    exact ⟨⟨hl, by rw [hrx]; exact hdown, hup, hlt⟩, hnext⟩

end Invariant

/-- The system gets from `s` to `t` by steps that meet the condition `C`. -/
def System.Reaches (C : Exchange → Label → Prop) : System → System → Prop :=
  ReflTransGen (Steps.Moves System.step fun s l => C s.exchange l)

/-- What holds at the start and is kept by every step of the exchange holds in every run. -/
theorem Invariant.of_reaches {C : Exchange → Label → Prop} {I : Exchange → Prop}
    (hI : Invariant C I) {junk : Host} {now : UInt32} (h0 : I (System.init junk now).exchange)
    {t : System} (h : System.Reaches C (.init junk now) t) : Aligned t ∧ I t.exchange :=
  Steps.invariant_of_moves (I := fun s => Aligned s ∧ I s.exchange)
    (fun _ _ _ hs hC hstep => hI.step hs.1 hs.2 hC hstep) ⟨System.init_aligned junk now, h0⟩ h

end Guillemot.Motor
