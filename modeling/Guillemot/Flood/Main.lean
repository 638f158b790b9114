import Guillemot.Flood.Packet
import Mathlib.Data.List.Basic
import Mathlib.Data.UInt

/-!
# The flood sensor node

The loop of `main` in `SubFloodSensorMain.cpp`. An iteration receives a packet and publishes what it
reads in it (`receivePart`), and then reports the sensors that were not seen for some time
(`checkDevices`).

`main` takes every positive value of `recvPacket` for a packet, and so publishes what a packet does
not say: from the zeros in the buffer behind a header, or from data that were rejected.
`flood_packets_iff` says of all runs on which lines this does not happen.
-/

namespace Guillemot.Flood

/-- `SubFloodSensor::FloodMsg`. -/
structure FloodMsg where
  /-- `enclosure`. -/
  enclosure : String
  /-- `sensorNumber`. -/
  sensorNumber : ℕ
  /-- `state`. -/
  state : ℕ
deriving DecidableEq, Repr

/-- `enclosure`. -/
def enclosure : String := "unspecified"

/-- `numberOfSensors`. -/
def numberOfSensors : ℕ := 2

/-- `timeOut`, in seconds. -/
def timeOut : UInt32 := 30

/-- `tripCurrentValue`. -/
def tripCurrentValue : ℕ := 600

/-- The variables of the loop of `main`. -/
structure State where
  /-- The port. -/
  port : Port
  /-- `aLastSeen`. -/
  aLastSeen : List UInt32
deriving DecidableEq, Repr

/-- What `getSeconds` returns in an iteration. -/
structure Clock where
  /-- When a reading of the sensor is handled. -/
  seen : ℕ → UInt32
  /-- When the sensor is checked, and again in the message. -/
  checked : ℕ → UInt32

/-- `getUInt16`. -/
def Reading.getUInt16 (r : Reading) (i : ℕ) : ℕ :=
  (r.pBuf i).toNat * 256 + (r.pBuf (i + 1)).toNat

/-- The values of `i / sizeof(UInt16)` in the loop over the readings of two bytes each. -/
def sensorsRead (packetSize : ℕ) : List ℕ :=
  (List.range numberOfSensors).takeWhile fun pos => 2 * pos < packetSize

/-- The message about the sensor `pos` in that loop. -/
def Reading.floodMsg (r : Reading) (pos : ℕ) : FloodMsg :=
  ⟨enclosure, pos,
    if tripCurrentValue < r.getUInt16 (packetDataOffset + 2 * pos) then 1 else 0⟩

/-- The `switch` of `main` on a packet. Readings of one or four bytes are printed only. -/
def State.handlePacket (s : State) (clock : Clock) (r : Reading) : State × List FloodMsg :=
  if r.pBuf packetBytesPerReadingOffset = 2 then
    let sensors := sensorsRead (r.pBuf packetSizeOffset).toNat
    ({ s with
        aLastSeen := sensors.foldl (fun seen pos => seen.set pos (clock.seen pos)) s.aLastSeen },
      sensors.map r.floodMsg)
  else (s, [])

/-- The first part of an iteration: the state afterwards, and the messages that are published;
`none` when the program ends in it. -/
def State.receivePart (line : Line) (clock : Clock) (s : State) :
    Option (State × List FloodMsg) :=
  if line.good s.port.calls then
    match recvPacket line s.port with
    | none => none
    | some (size, r) =>
      if 0 < size then some (State.handlePacket { s with port := r.port } clock r)
      else some ({ s with port := r.port }, [])
  -- The port is closed and opened, and may be good again.
  else some ({ s with port.calls := s.port.calls + 1 }, [])

/-- The check of the sensor `i`. -/
def State.checkDevice (clock : Clock) (s : State) (i : ℕ) : State × List FloodMsg :=
  if s.aLastSeen.getD i 0 + timeOut < clock.checked i then
    ({ s with aLastSeen := s.aLastSeen.set i (0xffffffff - timeOut) }, [⟨enclosure, i, 2⟩])
  else (s, [])

/-- The second part of an iteration. -/
def State.checkDevices (clock : Clock) (s : State) : State × List FloodMsg :=
  (List.range numberOfSensors).foldl
    (fun a i => ((a.1.checkDevice clock i).1, a.2 ++ (a.1.checkDevice clock i).2)) (s, [])

/-- An iteration of the loop of `main`: the state afterwards, and the messages of both parts. -/
def State.iterate (line : Line) (clock : Clock) (s : State) :
    Option (State × List FloodMsg) :=
  (s.receivePart line clock).map fun (s, published) =>
    ((s.checkDevices clock).1, published ++ (s.checkDevices clock).2)

/-- Iterations of the loop of `main`. -/
def State.run (line : Line) : List Clock → State → Option State
  | [], s => some s
  | clock :: clocks, s => (s.iterate line clock).bind fun r => State.run line clocks r.1

/-! ## What is published -/

/-- The call of `recvPacket` on the port `p` returns a positive value for a complete packet only. -/
def Line.PacketsOnly (line : Line) (p : Port) : Prop :=
  ∀ n r, recvPacket line p = some (n, r) → 0 < n → IsPacket (line.between p r.port)

/-- In the state `s`, `main` publishes a reading or notes that a sensor was seen only with a
complete packet. -/
def State.PublishesPackets (line : Line) (s : State) : Prop :=
  ∀ clock s' published, s.receivePart line clock = some (s', published) →
    published ≠ [] ∨ s'.aLastSeen ≠ s.aLastSeen → IsPacket (line.between s.port s'.port)

theorem State.handlePacket_port (s : State) (clock : Clock) (r : Reading) :
    (s.handlePacket clock r).1.port = s.port := by
  unfold handlePacket
  split_ifs <;> rfl

/-- `main` relies on the value of `recvPacket`. -/
theorem State.publishesPackets {line : Line} {s : State} (h : line.PacketsOnly s.port) :
    s.PublishesPackets line := by
  intro clock s' published hpart heffect
  unfold receivePart at hpart
  split_ifs at hpart with hgood
  · split at hpart
    · cases hpart
    · rename_i size r hpacket
      split_ifs at hpart with hsize
      · -- Whatever `handlePacket` does, the port is the one after the call.
        have hstate : (State.handlePacket { s with port := r.port } clock r).1 = s' :=
          congrArg Prod.fst (Option.some.inj hpart)
        have hport : s'.port = r.port :=
          hstate ▸ State.handlePacket_port { s with port := r.port } clock r
        rw [hport]
        exact h size r hpacket hsize
      · obtain ⟨rfl, rfl⟩ := Prod.mk.inj (Option.some.inj hpart)
        simp at heffect
  · obtain ⟨rfl, rfl⟩ := Prod.mk.inj (Option.some.inj hpart)
    simp at heffect

/-- In all runs of `main`, packets alone make `recvPacket` return a positive value and readings be
published, exactly when in all states reached the line is honest. -/
theorem flood_packets_iff (line : Line) (start : State) :
    (∀ clocks s, start.run line clocks = some s →
        (∀ n r, recvPacket line s.port = some (n, r) → 0 < n →
          IsPacket (line.between s.port r.port)) ∧
        s.PublishesPackets line) ↔
      ∀ clocks s, start.run line clocks = some s → line.Honest s.port := by
  constructor
  · intro h clocks s hrun
    exact (recvPacket_honest_iff line s.port).mp (h clocks s hrun).1
  · intro h clocks s hrun
    have hpackets := (recvPacket_honest_iff line s.port).mpr (h clocks s hrun)
    exact ⟨hpackets, State.publishesPackets hpackets⟩

/-- A line on which a header arrives, and then nothing more. -/
def headerOnly : Line where
  byte := fun i => [startByte, 4, 2].getD i 0
  found := fun k => if k < 3 then 1 else 0
  good := fun _ => true

/-- From a header without its data, both sensors are reported to be dry. -/
theorem header_published :
    let start : State := ⟨⟨0, 0⟩, [0, 0]⟩
    let clock : Clock := ⟨fun _ => 7, fun _ => 7⟩
    (recvPacket headerOnly start.port).map Prod.fst = some 3 ∧
      (start.receivePart headerOnly clock).map (fun r => (r.1.port.pos, r.1.aLastSeen, r.2)) =
        some (3, [7, 7], [⟨enclosure, 0, 0⟩, ⟨enclosure, 1, 0⟩]) ∧
      ¬ IsPacket (headerOnly.between start.port ⟨3, 103⟩) := by
  refine ⟨by decide +kernel, by decide +kernel, ?_⟩
  rintro ⟨size, k, data, hbytes, hlen, -⟩
  have hsent : headerOnly.between ⟨0, 0⟩ ⟨3, 103⟩ = [startByte, 4, 2] := by decide
  obtain ⟨-, rfl, -, rfl⟩ : startByte = startByte ∧ 4 = size ∧ 2 = k ∧ [] = data := by
    simpa using hsent.symm.trans hbytes
  exact absurd hlen (by decide)

end Guillemot.Flood
