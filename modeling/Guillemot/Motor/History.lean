import Mathlib.Data.List.Infix
import Guillemot.Motor.Firmware
import Guillemot.Motor.Host

/-!
# What was sent, served and taken

The history of host and firmware over two lines that deliver in order: the messages that the host
sent and did not lose, the messages that the firmware dispatched, each with its answer, and the
responses that the host handled. What is on its way is what was put on a line and not yet taken from
it (`requests`, `answers`). `Linked` says that each line delivers in order, and the lemmas on
`send`, `serve` and `take` what happens to the messages on their way.
-/

namespace Guillemot.Motor

/-- A message that the firmware dispatched. -/
structure Served where
  /-- The message. -/
  request : Message
  /-- The answer, unless there is none or it is lost. -/
  reply : Option Message
  /-- The duty cycles before. -/
  before : Pwm
  /-- The duty cycles after. -/
  after : Pwm
deriving DecidableEq, Repr

/-- What has happened so far. -/
structure History where
  /-- The messages of the host that were not lost. -/
  sent : List Message
  /-- The messages that the firmware dispatched. -/
  served : List Served
  /-- The responses that the host handled, each with the motor whose current was stored. -/
  taken : List (Message × Option MotorPosition)
deriving DecidableEq, Repr

namespace History

/-- Nothing has happened. -/
def empty : History := ⟨[], [], []⟩

/-- The answers that were not lost, each with its request. -/
def answered (h : History) : List (Message × Message) :=
  h.served.filterMap fun s => s.reply.map fun reply => (s.request, reply)

/-- The requests on their way to the firmware. -/
def requests (h : History) : List Message := h.sent.drop h.served.length

/-- The answers on their way to the host, each with its request. -/
def answers (h : History) : List (Message × Message) := h.answered.drop h.taken.length

/-- The firmware dispatches what the host sent, and the host handles what the firmware answered, in
the same order. -/
structure Linked (h : History) : Prop where
  /-- The firmware dispatches the messages of the host in order. -/
  served : h.served.map (·.request) <+: h.sent
  /-- The host handles the answers of the firmware in order. -/
  taken : h.taken.map Prod.fst <+: h.answered.map Prod.snd

/-- The history after messages of the host that are not lost. -/
def send (h : History) (ms : List Message) : History := { h with sent := h.sent ++ ms }

/-- The history after a message is dispatched. -/
def serve (h : History) (s : Served) : History := { h with served := h.served ++ [s] }

/-- The history after a response is handled. -/
def take (h : History) (response : Message) (stored : Option MotorPosition) : History :=
  { h with taken := h.taken ++ [(response, stored)] }

variable {h : History}

theorem empty_linked : empty.Linked := ⟨List.prefix_rfl, List.prefix_rfl⟩

/-- No more messages are dispatched than sent. -/
theorem Linked.served_le (hl : h.Linked) : h.served.length ≤ h.sent.length := by
  simpa using hl.served.length_le

/-- No more answers are handled than given. -/
theorem Linked.taken_le (hl : h.Linked) : h.taken.length ≤ h.answered.length := by
  simpa using hl.taken.length_le

@[simp]
theorem answers_send (ms : List Message) : (h.send ms).answers = h.answers := rfl

/-- What is sent is on its way. -/
theorem Linked.requests_send (hl : h.Linked) (ms : List Message) :
    (h.send ms).requests = h.requests ++ ms :=
  List.drop_append_of_le_length hl.served_le

theorem Linked.send (hl : h.Linked) (ms : List Message) : (h.send ms).Linked :=
  ⟨hl.served.trans (List.prefix_append _ _), hl.taken⟩

/-- The answers after a message is dispatched. -/
theorem answered_serve (s : Served) : (h.serve s).answered =
    h.answered ++ (s.reply.map fun reply => (s.request, reply)).toList := by
  cases hr : s.reply <;> simp [answered, History.serve, List.filterMap_append, hr]

/-- What is answered is on its way. -/
theorem Linked.answers_serve (hl : h.Linked) (s : Served) : (h.serve s).answers =
    h.answers ++ (s.reply.map fun reply => (s.request, reply)).toList := by
  unfold answers
  rw [answered_serve]
  exact List.drop_append_of_le_length hl.taken_le

/-- What is dispatched is no longer on its way. -/
theorem requests_serve {s : Served} {rest : List Message} (hs : h.requests = s.request :: rest) :
    (h.serve s).requests = rest := by
  have hdrop : h.sent.drop (h.served.length + 1) = (h.sent.drop h.served.length).drop 1 := by
    rw [List.drop_drop]
  have hlen : (h.serve s).served.length = h.served.length + 1 := by simp [serve]
  unfold requests at hs ⊢
  rw [hlen, show (h.serve s).sent = h.sent from rfl, hdrop, hs]
  rfl

theorem Linked.serve (hl : h.Linked) {s : Served} {rest : List Message}
    (hs : h.requests = s.request :: rest) : (h.serve s).Linked := by
  constructor
  · -- The message is the first one behind those that were dispatched.
    obtain ⟨tail, htail⟩ := hl.served
    have hdrop : h.sent.drop h.served.length = tail := by
      rw [← htail]
      exact List.drop_left' (by simp)
    refine ⟨rest, ?_⟩
    unfold requests at hs
    rw [hdrop] at hs
    simp [History.serve, ← htail, hs]
  · rw [answered_serve, List.map_append]
    exact hl.taken.trans (List.prefix_append _ _)

/-- What is handled is no longer on its way. -/
theorem answers_take {request response : Message} {stored : Option MotorPosition}
    {rest : List (Message × Message)} (ha : h.answers = (request, response) :: rest) :
    (h.take response stored).answers = rest := by
  have hdrop : h.answered.drop (h.taken.length + 1) = (h.answered.drop h.taken.length).drop 1 := by
    rw [List.drop_drop]
  have hlen : (h.take response stored).taken.length = h.taken.length + 1 := by simp [take]
  unfold answers at ha ⊢
  rw [hlen, show (h.take response stored).answered = h.answered from rfl, hdrop, ha]
  rfl

theorem Linked.take (hl : h.Linked) {request response : Message}
    {stored : Option MotorPosition} {rest : List (Message × Message)}
    (ha : h.answers = (request, response) :: rest) : (h.take response stored).Linked := by
  refine ⟨hl.served, ?_⟩
  -- The response is the first one behind those that were handled.
  obtain ⟨tail, htail⟩ := hl.taken
  have hdrop : (h.answered.map Prod.snd).drop h.taken.length = tail := by
    rw [← htail]
    exact List.drop_left' (by simp)
  rw [← List.map_drop, show h.answered.drop h.taken.length = h.answers from rfl, ha] at hdrop
  refine ⟨rest.map Prod.snd, ?_⟩
  have hanswered : (h.take response stored).answered = h.answered := rfl
  rw [hanswered, ← htail, ← hdrop]
  simp [History.take]

end History

end Guillemot.Motor
