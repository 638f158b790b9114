import Guillemot.Motor.System

/-!
# The currents that the host stores

A response does not say which motor its current is of: the host stores it for the motor of its
current message, whichever request the response answers. `Provenance` says that the two are the
same. It holds in every run in which a current request is sent only while no current request of the
other motor, nor an answer to one, is on its way (`CurrentsApart`). It does not hold in all runs,
since the answer to a repeated message may be taken for the answer to the next one.
-/

namespace Guillemot.Motor

/-! ## Properties of a history -/

/-- The current requests and their answers on their way are those of one motor. -/
def OnlyCurrents (motor : MotorPosition) (h : History) : Prop :=
  (∀ m ∈ h.requests, m.type = currentCmd → m.data.b0 = motor.byte) ∧
    ∀ a ∈ h.answers, a.1.type = currentCmd → a.1.data.b0 = motor.byte

instance (motor : MotorPosition) (h : History) : Decidable (OnlyCurrents motor h) :=
  inferInstanceAs (Decidable (_ ∧ _))

/-- Every current that the host stored for a motor is from the answer to a current request for that
motor: the response that it was taken from is the one that the firmware gave to this request. -/
def Provenance (h : History) : Prop :=
  ∀ (j : ℕ) (response : Message) (motor : MotorPosition),
    h.taken[j]? = some (response, some motor) →
      ∃ request : Message, h.answered[j]? = some (request, response) ∧
        request.type = currentCmd ∧ request.data.b0 = motor.byte

variable {h : History} {motor : MotorPosition}

/-- Another request for the motor, or of another kind, may be sent. -/
theorem OnlyCurrents.send (ho : OnlyCurrents motor h) (hl : h.Linked) {ms : List Message}
    (hms : ∀ m ∈ ms, m.type = currentCmd → m.data.b0 = motor.byte) :
    OnlyCurrents motor (h.send ms) := by
  refine ⟨fun m hm => ?_, ho.2⟩
  rw [hl.requests_send, List.mem_append] at hm
  rcases hm with hm | hm
  · exact ho.1 m hm
  · exact hms m hm

/-- A request that is dispatched stays on its way as the request of an answer. -/
theorem OnlyCurrents.serve (ho : OnlyCurrents motor h) (hl : h.Linked) {s : Served}
    {rest : List Message} (hs : h.requests = s.request :: rest) :
    OnlyCurrents motor (h.serve s) := by
  unfold OnlyCurrents at ho
  rw [hs] at ho
  refine ⟨?_, fun a ha => ?_⟩
  · rw [History.requests_serve hs]
    exact fun m hm => ho.1 m (List.mem_cons_of_mem _ hm)
  · rw [hl.answers_serve, List.mem_append] at ha
    rcases ha with ha | ha
    · exact ho.2 a ha
    · obtain ⟨reply, -, rfl⟩ := Option.map_eq_some_iff.mp (Option.mem_toList.mp ha)
      exact ho.1 s.request List.mem_cons_self

/-- An answer that is handled is no longer on its way. -/
theorem OnlyCurrents.take (ho : OnlyCurrents motor h) {request response : Message}
    {stored : Option MotorPosition} {rest : List (Message × Message)}
    (ha : h.answers = (request, response) :: rest) :
    OnlyCurrents motor (h.take response stored) := by
  refine ⟨ho.1, ?_⟩
  rw [History.answers_take ha]
  exact fun a hrest => ho.2 a (ha ▸ List.mem_cons_of_mem _ hrest)

/-- The answers that are there already stay where they are. -/
theorem Provenance.serve (hp : Provenance h) (s : Served) : Provenance (h.serve s) := by
  intro j response motor hj
  obtain ⟨request, hanswered, hrequest⟩ := hp j response motor hj
  refine ⟨request, ?_, hrequest⟩
  rw [History.answered_serve, List.getElem?_append_left (List.getElem?_eq_some_iff.mp hanswered).1]
  exact hanswered

/-- Handling an answer keeps the property if what is stored from it is of the motor of its
request. -/
theorem Provenance.take (hp : Provenance h) {request response : Message}
    {stored : Option MotorPosition} {rest : List (Message × Message)}
    (ha : h.answers = (request, response) :: rest)
    (hstored : ∀ motor, stored = some motor →
      request.type = currentCmd ∧ request.data.b0 = motor.byte) :
    Provenance (h.take response stored) := by
  have hhead : h.answered[h.taken.length]? = some (request, response) := by
    rw [← List.head?_drop, show h.answered.drop h.taken.length = h.answers from rfl, ha]
    rfl
  intro j response' motor hj
  unfold History.take at hj
  rw [List.getElem?_append] at hj
  split_ifs at hj with hold
  · exact hp j response' motor hj
  · -- The entry is the new one, since there is only one.
    obtain ⟨hindex, hentry⟩ := List.getElem?_eq_some_iff.mp hj
    rw [List.length_singleton] at hindex
    obtain rfl : j = h.taken.length := by omega
    simp only [List.getElem_singleton, Prod.mk.injEq] at hentry
    obtain ⟨rfl, hmotor⟩ := hentry
    exact ⟨request, hhead, hstored motor hmotor⟩

/-! ## Runs -/

/-- `CheckQuery` asks for a current only while no current request of the other motor, nor an answer
to one, is on its way. -/
def CurrentsApart (x : Exchange) : Label → Prop
  | .checkQuery t _ _ =>
    match x.host.queryDue t.now with
    | some (.current motor) => OnlyCurrents motor x.history
    | _ => True
  | _ => True

instance (x : Exchange) (l : Label) : Decidable (CurrentsApart x l) := by
  unfold CurrentsApart
  split
  · split <;> infer_instance
  · infer_instance

/-- What the runs under `CurrentsApart` keep. -/
structure CurrentsMatched (x : Exchange) : Prop where
  /-- While a current is asked for, no current of the other motor is on its way. -/
  current : x.host.currentMessage.type = currentCmd →
    ∃ motor : MotorPosition, x.host.currentMessage.data.b0 = motor.byte ∧
      OnlyCurrents motor x.history
  /-- A current on its way answers a current request. -/
  answers : ∀ a ∈ x.history.answers, a.2.type = currentResp → a.1.type = currentCmd
  /-- The currents that were stored are of the right motors. -/
  provenance : Provenance x.history

/-- The byte of a motor tells it from the other one. -/
theorem MotorPosition.eq_of_byte {motor motor' : MotorPosition} {b : UInt8} (hb : b = motor.byte)
    (hleft : motor' = .left ↔ b = MotorPosition.left.byte) : motor' = motor := by
  subst hb
  cases motor <;> cases motor' <;> first | rfl | exact absurd hleft (by decide)

/-- A message is sent: if it is a current request, it has to be for a motor whose currents are alone
on their way. -/
theorem CurrentsMatched.sends {x : Exchange} (hx : CurrentsMatched x) (hl : x.history.Linked)
    {host : Host} {m : Message} (lost : Bool) (hm : host.currentMessage = m)
    (hcurrent : m.type = currentCmd →
      ∃ motor : MotorPosition, m.data.b0 = motor.byte ∧ OnlyCurrents motor x.history) :
    CurrentsMatched (x.sends (host, some m) lost) := by
  refine ⟨fun htype => ?_, hx.answers, hx.provenance⟩
  simp only [Exchange.sends, hm] at htype ⊢
  obtain ⟨motor, hbyte, honly⟩ := hcurrent htype
  refine ⟨motor, hbyte, honly.send hl fun m' hm' _ => ?_⟩
  -- All that is put on the line is the message, or nothing when it is lost.
  cases lost with
  | true => cases hm'
  | false =>
    obtain rfl := List.mem_singleton.mp hm'
    exact hbyte

/-- A response is handled: a current in it is that of the motor which is asked for. -/
theorem CurrentsMatched.take {x : Exchange} (hx : CurrentsMatched x) {request response : Message}
    {rest : List (Message × Message)} (ha : x.history.answers = (request, response) :: rest) :
    CurrentsMatched (x.take response) := by
  have hhead : (request, response) ∈ x.history.answers := ha ▸ List.mem_cons_self
  refine ⟨fun htype => ?_, fun a hrest => ?_, hx.provenance.take ha fun motor' hstored => ?_⟩
  · -- The current message is the old one, since it still asks for a current.
    unfold Exchange.take at htype ⊢
    rcases x.host.handleResponse_currentMessage response with hsame | hnone
    · rw [hsame] at htype ⊢
      obtain ⟨motor, hbyte, honly⟩ := hx.current htype
      exact ⟨motor, hbyte, honly.take ha⟩
    · rw [hnone] at htype
      exact absurd htype (by decide)
  · simp only [Exchange.take, History.answers_take ha] at hrest
    exact hx.answers a (ha ▸ List.mem_cons_of_mem _ hrest)
  · -- Only currents of the motor that is asked for are on their way, and this is one of them.
    obtain ⟨hresp, hcmd, hleft⟩ := Host.handleResponse_stored hstored
    have hrequest := hx.answers _ hhead hresp
    obtain ⟨motor, hbyte, honly⟩ := hx.current hcmd
    obtain rfl := MotorPosition.eq_of_byte hbyte hleft
    exact ⟨hrequest, honly.2 _ hhead hrequest⟩

/-- A message is dispatched: it moves from the requests on their way to the answers. -/
theorem CurrentsMatched.serve {x : Exchange} (hx : CurrentsMatched x) (hl : x.history.Linked)
    {m : Message} {rest : List Message} (hm : x.history.requests = m :: rest) (now : UInt32)
    (lost : Bool) : CurrentsMatched (x.serve m now lost) := by
  refine ⟨fun htype => ?_, fun a ha hresp => ?_, hx.provenance.serve _⟩
  · obtain ⟨motor, hbyte, honly⟩ := hx.current htype
    exact ⟨motor, hbyte, honly.serve hl hm⟩
  · unfold Exchange.serve at ha
    rw [hl.answers_serve, List.mem_append] at ha
    rcases ha with ha | ha
    · exact hx.answers a ha hresp
    · -- The answer is a new one: the firmware sends a current only for a current request.
      obtain ⟨reply, hreply, rfl⟩ := Option.map_eq_some_iff.mp (Option.mem_toList.mp ha)
      cases lost with
      | true => cases hreply
      | false => exact Firmware.type_of_currentResp hreply hresp

/-- The steps of the exchange keep `CurrentsMatched`. -/
theorem CurrentsMatched.invariant : Invariant CurrentsApart CurrentsMatched where
  setMotorSpeed _ _ _ hx := ⟨hx.current, hx.answers, hx.provenance⟩
  take _ _ _ _ _ ha hx := hx.take ha
  checkMotor x t lost hl _ hx := by
    have hne : driveCmd ≠ currentCmd := by decide
    apply Exchange.keeps_checkMotor hx
    exact fun _ => hx.sends hl lost rfl fun htype => absurd htype hne
  checkQuery x t junk lost hl hC hx := by
    apply Exchange.keeps_checkQuery hx
    intro q r l v hdue
    -- This is the step that `CurrentsApart` is about.
    simp only [CurrentsApart, hdue] at hC
    apply hx.sends hl lost rfl
    cases q with
    | current motor => exact fun _ => ⟨motor, rfl, hC⟩
    | voltage =>
      have hne : voltageCmd ≠ currentCmd := by decide
      exact fun htype => absurd htype hne
  resend x now sent lost hl hx := by
    -- What is sent again is the current message, which `CurrentsMatched` is about.
    apply Exchange.keeps_resend hx
    exact fun _ => hx.sends hl lost rfl hx.current
  serve _ _ _ now lost hl hm hx := hx.serve hl hm now lost
  measureAndCheck _ _ _ hx := ⟨hx.current, hx.answers, hx.provenance⟩

/-- At the start no current is asked for. -/
theorem CurrentsMatched.init (junk : Host) (now : UInt32) :
    CurrentsMatched (System.init junk now).exchange := by
  have hne : noMessage ≠ currentCmd := by decide
  constructor
  · exact fun htype => absurd htype hne
  · exact fun a ha => absurd ha List.not_mem_nil
  · intro j response motor hj
    cases hj

/-- In a run in which every current request is sent apart from those of the other motor, each
current that the host stores for a motor answers a request for that motor. -/
theorem currents_provenance (junk : Host) (now : UInt32) (t : System)
    (h : System.Reaches CurrentsApart (.init junk now) t) : Provenance t.history :=
  (CurrentsMatched.invariant.of_reaches (CurrentsMatched.init junk now) h).2.provenance

/-- A run under `CurrentsApart` in which the current of the right motor is asked for and stored. -/
theorem right_current_stored : ∃ t : System,
    System.Reaches CurrentsApart (.init .zero 0) t ∧
      t.history.taken[1]? = some (⟨currentResp, .ofFloat (millivolts 1)⟩, some .right) ∧
      Provenance t.history := by
  have hrun : (Steps.run System.step (fun s l => CurrentsApart s.exchange l)
      (spinOnce ⟨0, 70000⟩ 0 ++ loop 7 80 1023 0 1 ++ spinOnce ⟨0, 110000⟩ 7 ++
        loop 7 120 1023 0 1 ++ spinOnce ⟨0, 130000⟩ 7) (.init .zero 0)).map
      (fun t => t.history.taken[1]?) =
        some (some (⟨currentResp, .ofFloat (millivolts 1)⟩, some .right)) := by
    decide +kernel
  obtain ⟨t, ht, htaken⟩ := Option.map_eq_some_iff.mp hrun
  have hreach := Steps.moves_of_run ht
  exact ⟨t, hreach, htaken, currents_provenance .zero 0 t hreach⟩

/-- The host sends a drive message, and again when no answer comes in time. Both are answered with
an error, since the kill switch is pressed. The second error is taken for the answer to the next
drive message, the answer to this one for that to the request for the right current, and then the
right current for the left one. -/
def crossedCurrents : List Label :=
  loop 0 0 0 0 1 ++ spinOnce ⟨0, 70000⟩ 0 ++ spinOnce ⟨1, 71000⟩ 0 ++
    loop 7 1072 0 0 1 ++ loop 7 1073 0 0 1 ++ spinOnce ⟨1, 80000⟩ 7 ++
    spinOnce ⟨1, 100000⟩ 7 ++ loop 7 1110 0 0 1 ++ spinOnce ⟨1, 120000⟩ 7 ++
    loop 7 1130 0 0 1 ++ spinOnce ⟨1, 140000⟩ 7

/-- Without a loss the current of the right motor is stored as that of the left one. -/
theorem right_current_stored_as_left : ¬ ∀ (junk : Host) (now : UInt32) (t : System),
    System.Reaches (fun _ l => l.lossless) (.init junk now) t → Provenance t.history := by
  intro h
  have hrun : (Steps.run System.step (fun _ l => l.lossless) crossedCurrents (.init .zero 0)).map
      (fun t => (t.history.taken[3]?, t.history.answered[3]?)) =
        some (some (⟨currentResp, .ofFloat (millivolts 1)⟩, some .left),
          some (⟨currentCmd, ⟨rightByte, 0, 0, 0⟩⟩, ⟨currentResp, .ofFloat (millivolts 1)⟩)) := by
    decide +kernel
  obtain ⟨t, ht, hentries⟩ := Option.map_eq_some_iff.mp hrun
  obtain ⟨htaken, hanswered⟩ := Prod.mk.inj hentries
  obtain ⟨request, hrequest, -, hbyte⟩ :=
    h .zero 0 t (Steps.moves_of_run ht) 3 _ .left htaken
  rw [hanswered] at hrequest
  obtain rfl := (Prod.mk.inj (Option.some.inj hrequest)).1
  exact absurd hbyte (by decide)

end Guillemot.Motor
