import Mathlib.Data.Nat.Log
import Mathlib.Data.UInt
import Guillemot.Library.FixedFrames

/-!
# The serial protocol of the motor controller

The host (`motorController.cpp`) and the firmware (`WildThumperControllerSerial.pde`) exchange
frames of seven bytes: `'S'`, a type, four data bytes, and `'E'`. The data are the four bytes of the
union in `Message`; `Data.ofFloat` and `Data.toFloat` are its view as a float, whose 32-bit pattern
both sides keep least significant byte first.
-/

namespace Guillemot.Motor

/-! ## Constants -/

/-- `START_SYNC_VAL`. -/
def startSyncVal : UInt8 := 0x53

/-- `END_SYNC_VAL`. -/
def endSyncVal : UInt8 := 0x45

/-- `PACKET_SIZE`. -/
def packetSize : ℕ := 7

/-- `DRIVE_CMD` of the firmware and `MOTOR_TYPE` of the host: `'D'`. -/
def driveCmd : UInt8 := 0x44

/-- `DRIVE_RESP` and `MOTOR_RESPONSE_TYPE`: `'d'`. -/
def driveResp : UInt8 := 0x64

/-- `VOLTAGE_CMD` and `VOLTAGE_TYPE`: `'V'`. -/
def voltageCmd : UInt8 := 0x56

/-- `VOLTAGE_RESP` and `VOLTAGE_RESPONSE_TYPE`: `'v'`. -/
def voltageResp : UInt8 := 0x76

/-- `CURRENT_CMD` and `CURRENT_TYPE`: `'C'`. -/
def currentCmd : UInt8 := 0x43

/-- `CURRENT_RESP` and `CURRENT_RESPONSE_TYPE`: `'c'`. -/
def currentResp : UInt8 := 0x63

/-- `ERROR_CMD` and `ERROR_TYPE`: `'e'`. -/
def errorCmd : UInt8 := 0x65

/-- `CLEAR_CMD`: `'X'`. -/
def clearCmd : UInt8 := 0x58

/-- `CLEAR_RESP`: `'x'`. -/
def clearResp : UInt8 := 0x78

/-- `NO_MESSAGE` of the host: `' '`. -/
def noMessage : UInt8 := 0x20

theorem packetSize_pos : 0 < packetSize := by decide

/-! ## Messages -/

/-- The four data bytes of a message, `DataC`. -/
structure Data where
  /-- `DataC[0]`. -/
  b0 : UInt8
  /-- `DataC[1]`. -/
  b1 : UInt8
  /-- `DataC[2]`. -/
  b2 : UInt8
  /-- `DataC[3]`. -/
  b3 : UInt8
deriving DecidableEq, Repr

/-- The four bytes in order. -/
def Data.bytes (d : Data) : List UInt8 := [d.b0, d.b1, d.b2, d.b3]

/-- The bytes of a float with the pattern `w`. -/
def Data.ofFloat (w : UInt32) : Data :=
  ⟨w.toUInt8, (w >>> 8).toUInt8, (w >>> 16).toUInt8, (w >>> 24).toUInt8⟩

/-- `DataF`, as the pattern of the float. -/
def Data.toFloat (d : Data) : UInt32 :=
  d.b0.toUInt32 ||| d.b1.toUInt32 <<< 8 ||| d.b2.toUInt32 <<< 16 ||| d.b3.toUInt32 <<< 24

/-- `Message`. -/
structure Message where
  /-- `type`. -/
  type : UInt8
  /-- The union. -/
  data : Data
deriving DecidableEq, Repr

/-- The frame of a message. -/
def Message.bytes (m : Message) : List UInt8 :=
  startSyncVal :: m.type :: (m.data.bytes ++ [endSyncVal])

/-- The message in a frame, `none` when the first or last byte is not what it has to be. -/
def Message.ofBytes : List UInt8 → Option Message
  | [s, type, b0, b1, b2, b3, e] =>
    if s = startSyncVal ∧ e = endSyncVal then some ⟨type, ⟨b0, b1, b2, b3⟩⟩ else none
  | _ => none

@[simp]
theorem Message.length_bytes (m : Message) : m.bytes.length = packetSize := rfl

/-- A frame holds its message. -/
@[simp]
theorem Message.ofBytes_bytes (m : Message) : Message.ofBytes m.bytes = some m := by
  simp [Message.bytes, Data.bytes, Message.ofBytes]

/-- A list holds a message exactly when it is its frame. -/
theorem Message.ofBytes_eq_some {xs : List UInt8} {m : Message} :
    Message.ofBytes xs = some m ↔ xs = m.bytes := by
  constructor
  · intro h
    unfold Message.ofBytes at h
    split at h
    · split_ifs at h with hsync
      obtain ⟨rfl, rfl⟩ := hsync
      obtain rfl := Option.some.inj h
      rfl
    · cases h
  · rintro rfl
    exact m.ofBytes_bytes

/-- The frames of messages are frames of the reader. -/
theorem Message.isFrame_bytes (m : Message) : FixedFrames.IsFrame startSyncVal packetSize m.bytes :=
  ⟨rfl, rfl⟩

/-- The bytes of a sequence of messages. -/
def wire (ms : List Message) : List UInt8 := (ms.map Message.bytes).flatten

@[simp]
theorem wire_nil : wire [] = [] := rfl

@[simp]
theorem wire_cons (m : Message) (ms : List Message) : wire (m :: ms) = m.bytes ++ wire ms := rfl

@[simp]
theorem wire_append (ms ms' : List Message) : wire (ms ++ ms') = wire ms ++ wire ms' := by
  simp [wire]

/-- The first frame of a sequence of messages is its first message. -/
theorem split_wire {ms : List Message} {xs ys : List UInt8} (h : xs ++ ys = wire ms)
    (hlen : xs.length = packetSize) :
    ∃ m ms', ms = m :: ms' ∧ xs = m.bytes ∧ ys = wire ms' := by
  obtain ⟨fs', hfs, hrest⟩ := FixedFrames.split_of_frames packetSize_pos
    (by simpa using fun m _ => m.isFrame_bytes) h hlen
  cases ms with
  | nil => cases hfs
  | cons m ms =>
    obtain ⟨rfl, rfl⟩ := List.cons.inj hfs
    exact ⟨m, ms, rfl, rfl, hrest⟩

/-- The reader of a part of a sequence of messages takes the first one as soon as it is there. -/
theorem next_wire {ms : List Message} {xs ys : List UInt8} (h : xs ++ ys = wire ms) :
    FixedFrames.next startSyncVal packetSize xs = (none, xs) ∨
      ∃ m ms' rest, ms = m :: ms' ∧
        FixedFrames.next startSyncVal packetSize xs = (some m.bytes, rest) ∧
        rest ++ ys = wire ms' := by
  have hframes : ∀ f ∈ ms.map Message.bytes, FixedFrames.IsFrame startSyncVal packetSize f := by
    simpa using fun m _ => m.isFrame_bytes
  rcases FixedFrames.next_of_frames packetSize_pos hframes h with
    ⟨-, hnext⟩ | ⟨f, fs', rest, hfs, hnext, hrest⟩
  · exact .inl hnext
  · cases ms with
    | nil => cases hfs
    | cons m ms =>
      obtain ⟨rfl, rfl⟩ := List.cons.inj hfs
      exact .inr ⟨m, ms, rest, rfl, hnext, hrest⟩

end Guillemot.Motor
