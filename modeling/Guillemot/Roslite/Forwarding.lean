import Guillemot.Library.Steps
import Mathlib.Data.Nat.Notation

/-!
# Forwarding through a proxy of Atlas

What the loop of `Atlas.run` does with one proxy: it polls, takes a message from the frontend if
there was one, and sends it on to the backend without waiting; then it does the same with a message
from the backend. Requests arrive, providers connect and disconnect, and replies arrive at any time,
also between the receipt of a message and its sending. What Atlas does between two visits to the
proxy (lookups, other proxies) does not change it.

A send raises `Again` whenever no provider is connected, and may raise it otherwise; the message is
then dropped. `Accounted` says that no other message is.
-/

namespace Guillemot.Roslite

open Relation (ReflTransGen)

variable {μ : Type}

/-! ## The loop at one proxy -/

/-- Where the loop is. -/
inductive Phase (μ : Type) where
  /-- Before `poll`. -/
  | polling
  /-- Behind `poll`, with whether the two sockets were ready. -/
  | frontend (frontendReady backendReady : Bool)
  /-- A message was received, and is about to be sent. -/
  | holding (message : μ) (backendReady : Bool)
  /-- The frontend is dealt with. -/
  | backend (backendReady : Bool)
deriving DecidableEq, Repr

/-- A send to the backend: the message, how many providers were connected, and whether `Again` was
raised. -/
structure Send (μ : Type) where
  message : μ
  providers : ℕ
  again : Bool
deriving DecidableEq, Repr

/-- A proxy: the messages that wait at its frontend and at its backend, the providers that are
connected, and what was sent to either side. No step reads `arrived`, `taken` and `sends`, which
record what has happened. -/
structure Forwarder (μ : Type) where
  phase : Phase μ
  requests : List μ
  providers : ℕ
  replies : List μ
  toBackend : List μ
  toFrontend : List μ
  arrived : List μ
  taken : List μ
  sends : List (Send μ)
deriving DecidableEq, Repr

/-- The start. -/
def Forwarder.init : Forwarder μ := ⟨.polling, [], 0, [], [], [], [], [], []⟩

/-- What can happen. -/
inductive Happening (μ : Type) where
  /-- A request arrives at the frontend. -/
  | request (message : μ)
  /-- A provider connects. -/
  | connect
  /-- A provider disconnects. -/
  | disconnect
  /-- A reply arrives at the backend. -/
  | reply (message : μ)
  /-- `poll` returns. -/
  | poll
  /-- The loop comes to the frontend. -/
  | receive
  /-- `send_multipart` to the backend returns, or raises `Again`. -/
  | send (again : Bool)
  /-- The loop comes to the backend. -/
  | forward
deriving DecidableEq, Repr

/-- One step; `none` where it cannot happen. -/
def Forwarder.step (s : Forwarder μ) : Happening μ → Option (Forwarder μ)
  | .request message => some { s with
      requests := s.requests ++ [message]
      arrived := s.arrived ++ [message] }
  | .connect => some { s with providers := s.providers + 1 }
  | .disconnect => if s.providers = 0 then none else some { s with providers := s.providers - 1 }
  | .reply message => some { s with replies := s.replies ++ [message] }
  | .poll =>
    match s.phase with
    | .polling => some { s with phase := .frontend (!s.requests.isEmpty) (!s.replies.isEmpty) }
    | _ => none
  | .receive =>
    match s.phase, s.requests with
    | .frontend true backendReady, message :: requests => some { s with
        phase := .holding message backendReady
        requests := requests
        taken := s.taken ++ [message] }
    | .frontend false backendReady, _ => some { s with phase := .backend backendReady }
    | _, _ => none
  | .send again =>
    match s.phase with
    | .holding message backendReady =>
      if s.providers = 0 ∧ again = false then none
      else some { s with
        phase := .backend backendReady
        toBackend := if again then s.toBackend else s.toBackend ++ [message]
        sends := s.sends ++ [⟨message, s.providers, again⟩] }
    | _ => none
  | .forward =>
    match s.phase, s.replies with
    | .backend true, message :: replies => some { s with
        phase := .polling
        replies := replies
        toFrontend := s.toFrontend ++ [message] }
    | .backend false, _ => some { s with phase := .polling }
    | _, _ => none

/-- One step of a run. -/
def Forwarder.Next (s t : Forwarder μ) : Prop :=
  Steps.Moves Forwarder.step (fun _ _ => True) s t

/-! ## What becomes of the requests -/

/-- The request that the loop holds. -/
def Phase.held : Phase μ → List μ
  | .holding message _ => [message]
  | _ => []

/-- Every request that has arrived was taken or waits, in order; every request that was taken was
sent once, in order, or is held; and every send has reached the backend unless it raised `Again`, as
all do that find no provider. -/
structure Accounted (s : Forwarder μ) : Prop where
  arrived : s.arrived = s.taken ++ s.requests
  taken : s.taken = s.sends.map Send.message ++ s.phase.held
  toBackend : s.toBackend = (s.sends.filter fun x => !x.again).map Send.message
  unavailable : ∀ x ∈ s.sends, x.providers = 0 → x.again = true

theorem accounted_init : Accounted (.init : Forwarder μ) := ⟨rfl, rfl, rfl, nofun⟩

/-- What is known of the requests. -/
def Forwarder.account (s : Forwarder μ) :
    List μ × List μ × List μ × List μ × List μ × List (Send μ) :=
  (s.requests, s.arrived, s.taken, s.phase.held, s.toBackend, s.sends)

/-- A step that does not touch the requests leaves them accounted for. -/
theorem Accounted.congr {s t : Forwarder μ} (hs : Accounted s) (h : t.account = s.account) :
    Accounted t := by
  simp only [Forwarder.account, Prod.mk.injEq] at h
  obtain ⟨hrequests, harrived, htaken, hheld, htoBackend, hsends⟩ := h
  refine ⟨?_, ?_, ?_, ?_⟩
  · rw [harrived, htaken, hrequests, hs.arrived]
  · rw [htaken, hsends, hheld, hs.taken]
  · rw [htoBackend, hsends, hs.toBackend]
  · rw [hsends]
    exact hs.unavailable

/-- What the receipt of a request leaves. -/
theorem accounted_receive {s : Forwarder μ} (hs : Accounted s) {message : μ} {requests : List μ}
    {backendReady : Bool} (hphase : s.phase = .frontend true backendReady)
    (hrequests : s.requests = message :: requests) :
    Accounted { s with
      phase := .holding message backendReady
      requests := requests
      taken := s.taken ++ [message] } := by
  refine ⟨?_, ?_, hs.toBackend, hs.unavailable⟩
  · rw [hs.arrived, hrequests]
    exact List.append_cons _ _ _
  · rw [hs.taken, hphase]
    simp [Phase.held]

/-- What a send leaves. -/
theorem accounted_send {s : Forwarder μ} (hs : Accounted s) {message : μ} {backendReady : Bool}
    (hphase : s.phase = .holding message backendReady) {again : Bool}
    (hagain : s.providers = 0 → again = true) :
    Accounted { s with
      phase := .backend backendReady
      toBackend := if again then s.toBackend else s.toBackend ++ [message]
      sends := s.sends ++ [⟨message, s.providers, again⟩] } := by
  refine ⟨hs.arrived, ?_, ?_, fun x hx hproviders => ?_⟩
  · rw [hs.taken, hphase, List.map_append]
    exact (List.append_nil _).symm
  · rw [List.filter_append, List.map_append, ← hs.toBackend]
    cases again with
    | false => rfl
    | true => exact (List.append_nil _).symm
  · rcases List.mem_append.mp hx with hold | hnew
    · exact hs.unavailable x hold hproviders
    · obtain rfl := List.mem_singleton.mp hnew
      exact hagain hproviders

theorem accounted_step {s t : Forwarder μ} {a : Happening μ} (hs : Accounted s)
    (h : s.step a = some t) : Accounted t := by
  cases a with
  | request message =>
    obtain rfl := Option.some.inj h
    refine ⟨?_, hs.taken, hs.toBackend, hs.unavailable⟩
    simp only
    rw [hs.arrived, List.append_assoc]
  | connect =>
    obtain rfl := Option.some.inj h
    exact hs.congr rfl
  | disconnect =>
    unfold Forwarder.step at h
    split_ifs at h
    obtain rfl := Option.some.inj h
    exact hs.congr rfl
  | reply message =>
    obtain rfl := Option.some.inj h
    exact hs.congr rfl
  | poll =>
    simp only [Forwarder.step] at h
    split at h
    · rename_i hphase
      obtain rfl := Option.some.inj h
      exact hs.congr (by simp [Forwarder.account, hphase, Phase.held])
    · cases h
  | receive =>
    simp only [Forwarder.step] at h
    split at h
    · rename_i backendReady message requests hphase hrequests
      obtain rfl := Option.some.inj h
      exact accounted_receive hs hphase hrequests
    · rename_i backendReady hphase
      obtain rfl := Option.some.inj h
      exact hs.congr (by simp [Forwarder.account, hphase, Phase.held])
    · cases h
  | send again =>
    simp only [Forwarder.step] at h
    split at h
    · rename_i message backendReady hphase
      by_cases hnone : s.providers = 0 ∧ again = false
      · rw [if_pos hnone] at h
        cases h
      · rw [if_neg hnone] at h
        obtain rfl := Option.some.inj h
        rw [not_and, Bool.not_eq_false] at hnone
        exact accounted_send hs hphase hnone
    · cases h
  | forward =>
    simp only [Forwarder.step] at h
    split at h
    · rename_i message replies hphase hreplies
      obtain rfl := Option.some.inj h
      exact hs.congr (by simp [Forwarder.account, hphase, Phase.held])
    · rename_i hphase
      obtain rfl := Option.some.inj h
      exact hs.congr (by simp [Forwarder.account, hphase, Phase.held])
    · cases h

/-- In every run, a request that was taken is held, or was sent exactly once, in the order of
arrival; it has reached the backend unless the send raised `Again`, and it is dropped where no
provider was connected. -/
theorem requests_accounted {s : Forwarder μ} (h : ReflTransGen Forwarder.Next .init s) :
    Accounted s :=
  Steps.invariant_of_moves (fun _ _ _ hs _ => accounted_step hs) accounted_init h

/-- A provider is there, and then it is gone. -/
def providerGone : List (Happening ℕ) :=
  [.connect, .request 1, .request 2, .poll, .receive, .send false, .forward, .disconnect, .poll,
    .receive, .send true]

/-- The first request reaches the backend, and the second one is dropped. -/
theorem requests_accounted_when_gone :
    ∃ s : Forwarder ℕ, ReflTransGen Forwarder.Next .init s ∧ s.taken = [1, 2] ∧
      s.toBackend = [1] ∧ Accounted s := by
  have hrun : Steps.run Forwarder.step (fun _ _ => True) providerGone .init =
      some ⟨.backend false, [], 0, [], [1], [], [1, 2], [1, 2],
        [⟨1, 1, false⟩, ⟨2, 0, true⟩]⟩ := rfl
  exact ⟨_, Steps.moves_of_run hrun, rfl, rfl, requests_accounted (Steps.moves_of_run hrun)⟩

/-- A request that arrives before any provider is taken and dropped. -/
theorem request_dropped :
    ¬ ∀ s : Forwarder ℕ, ReflTransGen Forwarder.Next .init s →
      ∀ message ∈ s.taken, message ∈ s.toBackend ∨ message ∈ s.phase.held := by
  intro h
  have hrun : Steps.run Forwarder.step (fun _ _ => True)
      [.request 1, .poll, .receive, .send true] .init =
      some (⟨.backend false, [], 0, [], [], [], [1], [1], [⟨1, 0, true⟩]⟩ : Forwarder ℕ) := rfl
  obtain hmem | hmem := h _ (Steps.moves_of_run hrun) 1 (List.mem_singleton.mpr rfl)
  · cases hmem
  · cases hmem

end Guillemot.Roslite
