import Guillemot.Library.Fletcher
import Mathlib.Data.UInt
import Mathlib.Data.List.GetD

/-!
# Building and reading packets

The functions of `mip.c` on the memory that `mip_buffer` points to: a packet is built field by field
between `mip_init` and `mip_finalize`, and read field by field with `mip_get_next_field`.

A `Body` is what a packet says, a descriptor set and its fields, and cannot be longer than a payload
may be; `Body.encode` are its bytes. `Carries` relates the memory to the body that was built so far.
Every call of `mip_add_field` and `mip_add_formatted_field` adds its field if it fits and changes
nothing otherwise (`Carries.add`), and a packet that was finalized is valid and is read as it was
built (`build_eq`).
-/

namespace Guillemot.Mip

/-- The bytes behind a pointer. -/
abbrev Memory := ℕ → UInt8

/-- `MIP_OK` and what else the functions return. -/
inductive Status where
  | ok
  | error
  | memoryError
  | fieldNotAvailable
  | invalidPacket
  | checksumError
deriving DecidableEq, Repr

/-- `MIP_SYNC_BYTE1`. -/
def syncByte1 : UInt8 := 0x75

/-- `MIP_SYNC_BYTE2`. -/
def syncByte2 : UInt8 := 0x65

/-- `MIP_HEADER_SIZE`. -/
def headerSize : ℕ := 4

/-- `MIP_CHECKSUM_SIZE`. -/
def checksumSize : ℕ := 2

/-- `MIP_FIELD_HEADER_SIZE`. -/
def fieldHeaderSize : ℕ := 2

/-- `MIP_MAX_PAYLOAD_SIZE`. -/
def maxPayloadSize : ℕ := 255

/-- `MIP_MAX_PACKET_SIZE`. -/
def maxPacketSize : ℕ := headerSize + maxPayloadSize + checksumSize

namespace Memory

/-- `memcpy` to an address. -/
def copy (m : Memory) (a : ℕ) (bytes : List UInt8) : Memory :=
  fun i => if a ≤ i ∧ i < a + bytes.length then bytes.getD (i - a) 0 else m i

/-- Some bytes from an address on. -/
def bytes (m : Memory) (a n : ℕ) : List UInt8 := (List.range n).map fun i => m (a + i)

variable (m : Memory)

/-! ## The functions -/

/-- `payload_size` of the header. -/
def payload : ℕ := (m 3).toNat

/-- `mip_init`. -/
def init (bufferSize : ℕ) (descriptorSet : UInt8) : Status × Memory :=
  if bufferSize < headerSize + checksumSize then (.memoryError, m)
  else (.ok, m.copy 0 [syncByte1, syncByte2, descriptorSet, 0])

/-- `mip_is_initialized`. -/
def isInitialized (descriptorSet : UInt8) : Status :=
  if m 0 = syncByte1 ∧ m 1 = syncByte2 ∧ m 2 = descriptorSet then .ok else .error

/-- `mip_add_field`. The size of the new packet is a `u16`. -/
def addField (bufferSize : ℕ) (fieldData : List UInt8) (dataDescriptor : UInt16) :
    Status × Memory :=
  let newPacketSize :=
    (headerSize + m.payload + fieldData.length + fieldHeaderSize + checksumSize) % 2 ^ 16
  if maxPacketSize < newPacketSize ∨ bufferSize < newPacketSize then (.memoryError, m)
  else
    let field := headerSize + m.payload
    let m := m.copy field [UInt8.ofNat (fieldData.length + fieldHeaderSize), dataDescriptor.toUInt8]
    let m := m.copy (field + fieldHeaderSize) fieldData
    (.ok, m.copy 3 [UInt8.ofNat (m.payload + (fieldData.length + fieldHeaderSize))])

/-- `mip_add_formatted_field`, with the memory that `field` points to. -/
def addFormattedField (bufferSize : ℕ) (field : Memory) : Status × Memory :=
  let newPacketSize := (headerSize + m.payload + (field 0).toNat + checksumSize) % 2 ^ 16
  if maxPacketSize < newPacketSize ∨ bufferSize < newPacketSize then (.memoryError, m)
  else
    let m := m.copy (headerSize + m.payload) (field.bytes 0 (field 0).toNat)
    (.ok, m.copy 3 [UInt8.ofNat (m.payload + (field 0).toNat)])

/-- The loop of `mip_calculate_checksum`, with its two sums. -/
def checksumBytes (range : ℕ) : UInt8 × UInt8 :=
  (m.bytes 0 range).foldl (fun s b => (s.1 + b, s.2 + (s.1 + b))) (0, 0)

/-- `mip_calculate_checksum`. -/
def calculateChecksum : ℕ :=
  let checksumRangeSize := m.payload + headerSize
  if maxPacketSize - checksumSize < checksumRangeSize then 0
  else
    let (checksumByte1, checksumByte2) := m.checksumBytes checksumRangeSize
    checksumByte1.toNat * 2 ^ 8 + checksumByte2.toNat

/-- `mip_finalize`, which returns the size of the packet. -/
def finalize : ℕ × Memory :=
  let checksumOffset := m.payload + headerSize
  if maxPacketSize - checksumSize < checksumOffset then (0, m)
  else
    let checksum := m.calculateChecksum
    (m.payload + headerSize + checksumSize,
      m.copy checksumOffset [UInt8.ofNat (checksum / 2 ^ 8), UInt8.ofNat checksum])

/-- `mip_is_mip_packet`. -/
def isMipPacket : Status :=
  if m 0 = syncByte1 ∧ m 1 = syncByte2 ∧ m.payload ≤ maxPayloadSize then .ok else .invalidPacket

/-- `mip_get_packet_size`. -/
def getPacketSize : ℕ :=
  if m.isMipPacket = .ok then m.payload + headerSize + checksumSize else 0

/-- `mip_get_packet_descriptor_set`. -/
def getPacketDescriptorSet : UInt8 := if m.isMipPacket = .ok then m 2 else 0

/-- `mip_get_payload_size`. -/
def getPayloadSize : ℕ := if m.isMipPacket = .ok then m.payload else 0

/-- `mip_get_next_field`, with the address of the field and the new offset. -/
def getNextField (fieldOffset : ℕ) : Status × ℕ × ℕ :=
  if m.isMipPacket ≠ .ok then (.invalidPacket, 0, fieldOffset)
  else if m.payload ≤ fieldOffset then (.fieldNotAvailable, 0, fieldOffset)
  else
    let field := headerSize + fieldOffset
    if m field = 0 then (.error, field, fieldOffset)
    else (.ok, field, fieldOffset + (m field).toNat)

/-- `mip_get_first_field`. -/
def getFirstField : Status × ℕ × ℕ := m.getNextField 0

/-- The field at an address, as its header tells it. -/
def fieldAt (field : ℕ) : UInt8 × List UInt8 :=
  (m (field + 1), m.bytes (field + fieldHeaderSize) ((m field).toNat - fieldHeaderSize))

/-- The loop over the fields of a packet: `mip_get_next_field` until it does not return `MIP_OK`,
with its last status. -/
def readFields : ℕ → ℕ → List (UInt8 × List UInt8) × Status
  | 0, _ => ([], .ok)
  | fuel + 1, fieldOffset =>
    match m.getNextField fieldOffset with
    | (.ok, field, fieldOffset) =>
      let (fields, status) := readFields fuel fieldOffset
      (m.fieldAt field :: fields, status)
    | (status, _, _) => ([], status)

/-- `mip_is_checksum_valid`. -/
def isChecksumValid : Status :=
  if m.isMipPacket ≠ .ok then .invalidPacket
  else
    let checksumOffset := m.payload + headerSize
    let packetChecksum := (m checksumOffset).toNat * 2 ^ 8 + (m (checksumOffset + 1)).toNat
    if packetChecksum = m.calculateChecksum then .ok else .checksumError

end Memory

variable {m : Memory} {i j k n a : ℕ} {xs ys : List UInt8}

/-! ## Memory by its bytes -/

namespace Memory

@[simp] theorem length_bytes (m : Memory) (a n : ℕ) : (m.bytes a n).length = n := by simp [bytes]

theorem getElem_bytes (hi : i < (m.bytes a n).length) : (m.bytes a n)[i] = m (a + i) := by
  simp [bytes]

theorem bytes_add (m : Memory) (a j k : ℕ) :
    m.bytes a (j + k) = m.bytes a j ++ m.bytes (a + j) k := by
  unfold bytes
  rw [List.range_add, List.map_append, List.map_map]
  simp only [Function.comp_def, Nat.add_assoc]

theorem bytes_cons (m : Memory) (a n : ℕ) : m.bytes a (n + 1) = m a :: m.bytes (a + 1) n := by
  have hadd := bytes_add m a 1 n
  rw [Nat.add_comm 1 n] at hadd
  exact hadd

/-- Bytes that are not written stay. -/
theorem bytes_copy_of_disjoint (h : a + n ≤ i ∨ i + xs.length ≤ a) :
    (m.copy i xs).bytes a n = m.bytes a n := by
  refine List.map_congr_left fun k hk => ?_
  replace hk : k < n := List.mem_range.mp hk
  exact if_neg (by omega)

/-- Bytes that were just written. -/
theorem bytes_copy_self (m : Memory) (a : ℕ) (xs : List UInt8) :
    (m.copy a xs).bytes a xs.length = xs := by
  apply List.ext_getElem
  · rw [length_bytes]
  · intro k hk hk'
    rw [getElem_bytes]
    show (if a ≤ a + k ∧ a + k < a + xs.length then xs.getD (a + k - a) 0 else _) = xs[k]
    rw [if_pos (by omega), Nat.add_sub_cancel_left, List.getD_eq_getElem _ _ hk']

theorem copy_of_le (h : a + xs.length ≤ i) : m.copy a xs i = m i := if_neg (by omega)

theorem copy_of_lt (h : i < a) : m.copy a xs i = m i := if_neg (by omega)

/-- Bytes that are written behind others. -/
theorem copy_append (m : Memory) (a : ℕ) (xs ys : List UInt8) :
    (m.copy a xs).copy (a + xs.length) ys = m.copy a (xs ++ ys) := by
  funext i
  show (if a + xs.length ≤ i ∧ _ then _ else if _ then _ else _) = if _ then _ else _
  rw [List.length_append]
  rcases Nat.lt_or_ge i (a + xs.length) with hlt | hge
  · rw [if_neg (by omega)]
    by_cases ha : a ≤ i
    · rw [if_pos ⟨ha, hlt⟩, if_pos ⟨ha, by omega⟩, List.getD_append _ _ _ _ (by omega)]
    · rw [if_neg (by omega), if_neg (by omega)]
  · rw [if_neg (show ¬(a ≤ i ∧ i < a + xs.length) by omega)]
    by_cases hlt : i < a + (xs.length + ys.length)
    · rw [if_pos ⟨hge, by omega⟩, if_pos ⟨by omega, hlt⟩, List.getD_append_right _ _ _ _ (by omega),
        Nat.sub_sub]
    · rw [if_neg (by omega), if_neg (by omega)]

end Memory

/-! ## Bodies -/

/-- A field: its descriptor and its data. -/
structure Field where
  descriptor : UInt8
  data : List UInt8
deriving DecidableEq, Repr

/-- The size of a field, with its header. -/
def Field.size (f : Field) : ℕ := f.data.length + fieldHeaderSize

/-- The bytes of a field. -/
def Field.bytes (f : Field) : List UInt8 := UInt8.ofNat f.size :: f.descriptor :: f.data

theorem Field.length_bytes (f : Field) : f.bytes.length = f.size := rfl

/-- What the fields of a packet take of its payload. -/
def sizeOfFields (fields : List Field) : ℕ := (fields.map Field.size).sum

/-- What a packet says, if it fits into one. -/
structure Body where
  descriptorSet : UInt8
  fields : List Field
  fits : sizeOfFields fields ≤ maxPayloadSize

namespace Body

/-- The size of the payload. -/
def size (b : Body) : ℕ := sizeOfFields b.fields

/-- The payload. -/
def payload (b : Body) : List UInt8 := b.fields.flatMap Field.bytes

/-- A packet without its checksum. -/
def front (b : Body) : List UInt8 :=
  [syncByte1, syncByte2, b.descriptorSet, UInt8.ofNat b.size] ++ b.payload

/-- A packet. -/
def encode (b : Body) : List UInt8 :=
  b.front ++ [(Fletcher.sums b.front).1, (Fletcher.sums b.front).2]

/-- A body without fields. -/
def empty (descriptorSet : UInt8) : Body := ⟨descriptorSet, [], Nat.zero_le _⟩

/-- A field is added if the packet with it fits into a packet and into the buffer. -/
def add (bufferSize : ℕ) (b : Body) (f : Field) : Body :=
  if h : headerSize + b.size + f.size + checksumSize ≤ min maxPacketSize bufferSize then
    ⟨b.descriptorSet, b.fields ++ [f], by
      have hmax := Nat.le_trans h (Nat.min_le_left _ _)
      simp only [headerSize, checksumSize, maxPacketSize, size, sizeOfFields] at hmax
      simp only [sizeOfFields, List.map_append, List.sum_append, List.map_cons, List.map_nil,
        List.sum_singleton]
      omega⟩
  else b

variable (b : Body) {f : Field} {bufferSize : ℕ}

theorem length_payload : b.payload.length = b.size := by
  unfold payload size sizeOfFields
  rw [List.length_flatMap]
  rfl

theorem length_front : b.front.length = headerSize + b.size := by
  rw [front, List.length_append, length_payload]
  rfl

theorem length_encode : b.encode.length = b.size + headerSize + checksumSize := by
  rw [encode, List.length_append, length_front, Nat.add_comm b.size]
  rfl

theorem toNat_size : (UInt8.ofNat b.size).toNat = b.size := by
  have hfits : b.size ≤ 255 := b.fits
  rw [UInt8.toNat_ofNat']
  exact Nat.mod_eq_of_lt (by omega)

theorem add_of_le (h : headerSize + b.size + f.size + checksumSize ≤ min maxPacketSize bufferSize) :
    (b.add bufferSize f).descriptorSet = b.descriptorSet ∧
      (b.add bufferSize f).fields = b.fields ++ [f] := by
  rw [add, dif_pos h]
  exact ⟨rfl, rfl⟩

theorem add_of_lt (h : min maxPacketSize bufferSize < headerSize + b.size + f.size + checksumSize) :
    b.add bufferSize f = b := dif_neg (Nat.not_le.mpr h)

end Body

/-! ## Building -/

/-- The memory holds a packet without its checksum. -/
def Carries (m : Memory) (b : Body) : Prop := m.bytes 0 (headerSize + b.size) = b.front

section Carries

variable {b : Body} {f : Field} {bufferSize : ℕ}

theorem Carries.header (h : Carries m b) :
    m 0 = syncByte1 ∧ m 1 = syncByte2 ∧ m 2 = b.descriptorSet ∧ m.payload = b.size := by
  have hfront : m.bytes 0 4 ++ m.bytes 4 b.size =
      [syncByte1, syncByte2, b.descriptorSet, UInt8.ofNat b.size] ++ b.payload := by
    rw [← Memory.bytes_add m 0 4 b.size]
    exact h
  obtain ⟨hheader, -⟩ := List.append_inj hfront (Memory.length_bytes m 0 4)
  obtain ⟨h0, h1, h2, h3, -⟩ : m 0 = syncByte1 ∧ m 1 = syncByte2 ∧ m 2 = b.descriptorSet ∧
      m 3 = UInt8.ofNat b.size ∧ True := by simpa [Memory.bytes, List.range_succ] using hheader
  refine ⟨h0, h1, h2, ?_⟩
  unfold Memory.payload
  rw [h3, Body.toNat_size]

theorem Carries.payload (h : Carries m b) : m.bytes headerSize b.size = b.payload := by
  have hfront : m.bytes 0 4 ++ m.bytes 4 b.size =
      [syncByte1, syncByte2, b.descriptorSet, UInt8.ofNat b.size] ++ b.payload := by
    rw [← Memory.bytes_add m 0 4 b.size]
    exact h
  exact (List.append_inj hfront (Memory.length_bytes m 0 4)).2

theorem carries_of (h0 : m 0 = syncByte1) (h1 : m 1 = syncByte2) (h2 : m 2 = b.descriptorSet)
    (h3 : m 3 = UInt8.ofNat b.size) (hp : m.bytes headerSize b.size = b.payload) :
    Carries m b := by
  unfold Carries headerSize
  rw [Memory.bytes_add, show m.bytes (0 + 4) b.size = b.payload from hp]
  simp [Memory.bytes, List.range_succ, h0, h1, h2, h3, Body.front]

/-- `mip_init` starts a body without fields. -/
theorem carries_init (hsize : headerSize + checksumSize ≤ bufferSize) (descriptorSet : UInt8) :
    (m.init bufferSize descriptorSet).1 = .ok ∧
      Carries (m.init bufferSize descriptorSet).2 (.empty descriptorSet) := by
  unfold Memory.init
  rw [if_neg (Nat.not_lt.mpr hsize)]
  exact ⟨rfl, carries_of rfl rfl rfl rfl rfl⟩

/-- The bytes of a field are written behind the others, and the payload gets longer. -/
theorem Carries.extend (h : Carries m b)
    (hle : headerSize + b.size + f.size + checksumSize ≤ min maxPacketSize bufferSize)
    {bytes : List UInt8} (hbytes : bytes = f.bytes) :
    Carries ((m.copy (headerSize + b.size) bytes).copy 3 [UInt8.ofNat (b.size + f.size)])
      (b.add bufferSize f) := by
  subst hbytes
  obtain ⟨h0, h1, h2, h3⟩ := h.header
  obtain ⟨hset, hfields⟩ := b.add_of_le hle
  have hsize : (b.add bufferSize f).size = b.size + f.size := by
    simp [Body.size, hfields, sizeOfFields]
  have hpayload : (b.add bufferSize f).payload = b.payload ++ f.bytes := by
    simp [Body.payload, hfields]
  have hlow {i : ℕ} (hi : i < 3) :
      ((m.copy (headerSize + b.size) f.bytes).copy 3 [UInt8.ofNat (b.size + f.size)]) i = m i := by
    rw [Memory.copy_of_lt hi, Memory.copy_of_lt (by unfold headerSize; omega)]
  refine carries_of ?_ ?_ ?_ ?_ ?_
  · rw [hlow (by decide), h0]
  · rw [hlow (by decide), h1]
  · rw [hlow (by decide), h2, hset]
  · rw [hsize]
    rfl
  · have hlen : f.bytes.length = f.size := f.length_bytes
    rw [hsize, hpayload, Memory.bytes_copy_of_disjoint (Or.inr (Nat.le_refl headerSize)),
      Memory.bytes_add, Memory.bytes_copy_of_disjoint (Or.inl (Nat.le_refl _)), h.payload, ← hlen,
      Memory.bytes_copy_self]

end Carries

/-- A call that adds a field. -/
inductive Addition where
  | field (fieldData : List UInt8) (dataDescriptor : UInt16)
  | formatted (formattedField : Memory)

/-- The field of a call. -/
def Addition.asField : Addition → Field
  | .field fieldData dataDescriptor => ⟨dataDescriptor.toUInt8, fieldData⟩
  | .formatted p => ⟨p 1, p.bytes 2 ((p 0).toNat - 2)⟩

/-- The sizes make sense: the size of the new packet does not leave 16 bits, whatever is in the
packet, and a formatted field has a header. -/
def Addition.Proper : Addition → Prop
  | .field fieldData _ => fieldData.length + maxPacketSize + fieldHeaderSize < 2 ^ 16
  | .formatted p => fieldHeaderSize ≤ (p 0).toNat

/-- The call. -/
def Memory.perform (m : Memory) (bufferSize : ℕ) : Addition → Status × Memory
  | .field fieldData dataDescriptor => m.addField bufferSize fieldData dataDescriptor
  | .formatted field => m.addFormattedField bufferSize field

section Addition

variable {b : Body} {bufferSize : ℕ} {call : Addition}

/-- The bytes of a formatted field. -/
theorem bytes_formatted {p : Memory} (h : fieldHeaderSize ≤ (p 0).toNat) :
    p.bytes 0 (p 0).toNat = (Addition.formatted p).asField.bytes := by
  obtain ⟨n, hn⟩ := Nat.exists_eq_add_of_le' h
  have hback : UInt8.ofNat (n + 2) = p 0 := by
    rw [show n + 2 = (p 0).toNat from hn.symm, UInt8.ofNat_toNat]
  have hdata : (Addition.formatted p).asField = ⟨p 1, p.bytes 2 n⟩ := by
    simp only [Addition.asField, hn, fieldHeaderSize, Nat.add_sub_cancel]
  have hsize : Field.size ⟨p 1, p.bytes 2 n⟩ = n + 2 := by
    simp [Field.size, fieldHeaderSize]
  rw [hdata, Field.bytes, hsize, hback, hn, fieldHeaderSize, Memory.bytes_cons, Memory.bytes_cons]

/-- What a call does that is not refused. -/
theorem perform_of_le (hsize : m.payload = b.size) (hproper : call.Proper)
    (hle : headerSize + b.size + call.asField.size + checksumSize ≤ min maxPacketSize bufferSize) :
    m.perform bufferSize call = (.ok,
      (m.copy (headerSize + b.size) call.asField.bytes).copy 3
        [UInt8.ofNat (b.size + call.asField.size)]) := by
  have hmax := Nat.le_trans hle (Nat.min_le_left _ _)
  have hroom := Nat.le_trans hle (Nat.min_le_right _ _)
  cases call with
  | field fieldData dataDescriptor =>
    simp only [Addition.asField, Field.size, headerSize, checksumSize, fieldHeaderSize,
      maxPacketSize, maxPayloadSize] at hmax hroom
    have hsmall : ¬(maxPacketSize <
        (headerSize + m.payload + fieldData.length + fieldHeaderSize + checksumSize) % 2 ^ 16 ∨
        bufferSize <
        (headerSize + m.payload + fieldData.length + fieldHeaderSize + checksumSize) % 2 ^ 16) := by
      rw [hsize]
      simp only [headerSize, checksumSize, fieldHeaderSize, maxPacketSize, maxPayloadSize]
      rw [Nat.mod_eq_of_lt (by omega)]
      omega
    have hbytes := m.copy_append (headerSize + m.payload)
      [UInt8.ofNat (fieldData.length + fieldHeaderSize), dataDescriptor.toUInt8] fieldData
    have hkept : Memory.payload (m.copy (headerSize + m.payload)
        ([UInt8.ofNat (fieldData.length + fieldHeaderSize), dataDescriptor.toUInt8] ++ fieldData)) =
        m.payload := by
      unfold Memory.payload
      rw [Memory.copy_of_lt (show 3 < headerSize + _ by unfold headerSize; omega)]
    refine (if_neg hsmall).trans ?_
    rw [show headerSize + m.payload + fieldHeaderSize = headerSize + m.payload +
      [UInt8.ofNat (fieldData.length + fieldHeaderSize), dataDescriptor.toUInt8].length from rfl,
      hbytes, hkept, hsize]
    rfl
  | formatted p =>
    have hp : fieldHeaderSize ≤ (p 0).toNat := hproper
    have hfield : (Addition.formatted p).asField.size = (p 0).toNat := by
      simp only [Addition.asField, Field.size, Memory.length_bytes, fieldHeaderSize] at hp ⊢
      omega
    rw [hfield] at hmax hroom ⊢
    simp only [headerSize, checksumSize, maxPacketSize, maxPayloadSize] at hmax hroom
    have hsmall :
        ¬(maxPacketSize < (headerSize + m.payload + (p 0).toNat + checksumSize) % 2 ^ 16 ∨
          bufferSize < (headerSize + m.payload + (p 0).toNat + checksumSize) % 2 ^ 16) := by
      rw [hsize]
      simp only [headerSize, checksumSize, maxPacketSize, maxPayloadSize]
      rw [Nat.mod_eq_of_lt (by omega)]
      omega
    have hkept : Memory.payload (m.copy (headerSize + m.payload) (p.bytes 0 (p 0).toNat)) =
        m.payload := by
      unfold Memory.payload
      rw [Memory.copy_of_lt (show 3 < headerSize + _ by unfold headerSize; omega)]
    refine (if_neg hsmall).trans ?_
    rw [hkept, hsize, bytes_formatted hp]

/-- A call that is refused does nothing. -/
theorem perform_of_lt (hsize : m.payload = b.size) (hproper : call.Proper)
    (hlt : min maxPacketSize bufferSize < headerSize + b.size + call.asField.size + checksumSize) :
    m.perform bufferSize call = (.memoryError, m) := by
  have hb : b.size ≤ 255 := b.fits
  cases call with
  | field fieldData dataDescriptor =>
    refine if_pos ?_
    rw [hsize]
    simp only [Addition.Proper, Addition.asField, Field.size, headerSize, checksumSize,
      fieldHeaderSize, maxPacketSize, maxPayloadSize] at hproper hlt ⊢
    rw [Nat.mod_eq_of_lt (by omega)]
    omega
  | formatted p =>
    have hbyte := (p 0).toNat_lt
    refine if_pos ?_
    rw [hsize]
    simp only [Addition.Proper, Addition.asField, Field.size, headerSize, checksumSize,
      fieldHeaderSize, maxPacketSize, maxPayloadSize, Memory.length_bytes] at hproper hlt ⊢
    rw [Nat.mod_eq_of_lt (by omega)]
    omega

/-- A field that fits is added, and otherwise nothing changes. -/
theorem Carries.perform (h : Carries m b) (hproper : call.Proper) :
    Carries (m.perform bufferSize call).2 (b.add bufferSize call.asField) ∧
      ∀ i, headerSize + (b.add bufferSize call.asField).size + checksumSize ≤ i →
        (m.perform bufferSize call).2 i = m i := by
  obtain ⟨-, -, -, hsize⟩ := h.header
  rcases Nat.lt_or_ge (min maxPacketSize bufferSize)
    (headerSize + b.size + call.asField.size + checksumSize) with hlt | hle
  · rw [perform_of_lt hsize hproper hlt, b.add_of_lt hlt]
    exact ⟨h, fun _ _ => rfl⟩
  · have hgrown : (b.add bufferSize call.asField).size = b.size + call.asField.size := by
      simp [Body.size, (b.add_of_le hle).2, sizeOfFields]
    rw [perform_of_le hsize hproper hle]
    refine ⟨h.extend hle rfl, fun i hi => ?_⟩
    rw [hgrown] at hi
    have hlen : call.asField.bytes.length = call.asField.size := call.asField.length_bytes
    unfold headerSize checksumSize at hi
    calc _ = (m.copy (headerSize + b.size) call.asField.bytes) i :=
          Memory.copy_of_le (show 3 + 1 ≤ i by omega)
      _ = m i := Memory.copy_of_le (by rw [hlen]; unfold headerSize; omega)

end Addition

/-! ## Checksums -/

theorem isMipPacket_iff : m.isMipPacket = .ok ↔ m 0 = syncByte1 ∧ m 1 = syncByte2 := by
  have hbyte : m.payload ≤ maxPayloadSize := Nat.le_of_lt_succ (m 3).toNat_lt
  unfold Memory.isMipPacket
  constructor
  · intro hok
    split_ifs at hok with h
    exact ⟨h.1, h.2.1⟩
  · intro hsync
    exact if_pos ⟨hsync.1, hsync.2, hbyte⟩

theorem calculateChecksum_eq (m : Memory) :
    m.calculateChecksum = (Fletcher.sums (m.bytes 0 (m.payload + headerSize))).1.toNat * 2 ^ 8 +
      (Fletcher.sums (m.bytes 0 (m.payload + headerSize))).2.toNat := by
  have hbyte := (m 3).toNat_lt
  refine if_neg ?_
  simp only [maxPacketSize, headerSize, checksumSize, maxPayloadSize, Memory.payload]
  omega

/-- The checksum of a packet is valid when its last two bytes are the checksum of the others. -/
theorem isChecksumValid_iff (h : m.isMipPacket = .ok) :
    m.isChecksumValid = .ok ↔
      Fletcher.Sealed (m.bytes 0 (m.payload + headerSize + checksumSize)) := by
  have hsplit : m.bytes 0 (m.payload + headerSize + checksumSize) =
      m.bytes 0 (m.payload + headerSize) ++
        [m (m.payload + headerSize), m (m.payload + headerSize + 1)] := by
    rw [Memory.bytes_add, Nat.zero_add]
    rfl
  rw [hsplit, Fletcher.sealed_append]
  unfold Memory.isChecksumValid
  rw [if_neg (not_not.mpr h), calculateChecksum_eq]
  generalize Fletcher.sums (m.bytes 0 (m.payload + headerSize)) = s
  have hlow := s.2.toNat_lt
  have hlow' := (m (m.payload + headerSize + 1)).toNat_lt
  constructor
  · intro hvalid
    have heq : (m (m.payload + headerSize)).toNat * 2 ^ 8 +
        (m (m.payload + headerSize + 1)).toNat = s.1.toNat * 2 ^ 8 + s.2.toNat := by
      by_contra hne
      rw [if_neg hne] at hvalid
      cases hvalid
    have h1 : s.1 = m (m.payload + headerSize) := UInt8.toNat_inj.mp (by omega)
    have h2 : s.2 = m (m.payload + headerSize + 1) := UInt8.toNat_inj.mp (by omega)
    exact Prod.ext h1 h2
  · intro heq
    rw [heq]
    exact if_pos rfl

section Finalize

variable {b : Body}

/-- `mip_finalize` makes a packet of the body. -/
theorem Carries.finalize (h : Carries m b) :
    m.finalize.1 = b.encode.length ∧ m.finalize.2.bytes 0 b.encode.length = b.encode ∧
      ∀ i, b.encode.length ≤ i → m.finalize.2 i = m i := by
  obtain ⟨-, -, -, hsize⟩ := h.header
  have hfits : b.size ≤ 255 := b.fits
  have hfront : m.bytes 0 (m.payload + headerSize) = b.front := by
    rw [hsize, Nat.add_comm]
    exact h
  have hlow := (Fletcher.sums b.front).2.toNat_lt
  have hfinal : m.finalize = (b.size + headerSize + checksumSize,
      m.copy (b.size + headerSize) [(Fletcher.sums b.front).1, (Fletcher.sums b.front).2]) := by
    have hsum : m.calculateChecksum =
        (Fletcher.sums b.front).1.toNat * 2 ^ 8 + (Fletcher.sums b.front).2.toNat := by
      rw [calculateChecksum_eq, hfront]
    have hhigh : UInt8.ofNat (m.calculateChecksum / 2 ^ 8) = (Fletcher.sums b.front).1 := by
      rw [hsum, show (Fletcher.sums b.front).1.toNat * 2 ^ 8 + (Fletcher.sums b.front).2.toNat =
        2 ^ 8 * (Fletcher.sums b.front).1.toNat + (Fletcher.sums b.front).2.toNat by omega,
        Nat.mul_add_div (by decide), Nat.div_eq_of_lt hlow, Nat.add_zero, UInt8.ofNat_toNat]
    have hrest : UInt8.ofNat m.calculateChecksum = (Fletcher.sums b.front).2 := by
      apply UInt8.toNat_inj.mp
      rw [hsum, UInt8.toNat_ofNat']
      omega
    have hsmall : ¬maxPacketSize - checksumSize < m.payload + headerSize := by
      simp only [maxPacketSize, headerSize, checksumSize, maxPayloadSize, hsize]
      omega
    refine (if_neg hsmall).trans ?_
    rw [hhigh, hrest, hsize]
  rw [hfinal, b.length_encode]
  refine ⟨rfl, ?_, fun i hi => Memory.copy_of_le hi⟩
  have hkept : (m.copy (b.size + headerSize)
      [(Fletcher.sums b.front).1, (Fletcher.sums b.front).2]).bytes 0 (b.size + headerSize) =
      b.front := by
    rw [Memory.bytes_copy_of_disjoint (by omega), Nat.add_comm]
    exact h
  show Memory.bytes _ 0 (b.size + headerSize + 2) = _
  rw [Memory.bytes_add, hkept, Nat.zero_add]
  exact congrArg (b.front ++ ·) (Memory.bytes_copy_self m _ _)

/-- A packet in memory is told by its bytes. -/
theorem carries_of_encode (h : m.bytes 0 b.encode.length = b.encode) :
    Carries m b ∧ m.isMipPacket = .ok ∧ m.isChecksumValid = .ok := by
  have hsplit : m.bytes 0 b.front.length ++ m.bytes b.front.length 2 =
      b.front ++ [(Fletcher.sums b.front).1, (Fletcher.sums b.front).2] := by
    have hadd := Memory.bytes_add m 0 b.front.length 2
    rw [Nat.zero_add] at hadd
    rw [← hadd]
    have hlen : b.encode.length = b.front.length + 2 := by
      rw [Body.encode, List.length_append]
      rfl
    rw [hlen] at h
    exact h
  obtain ⟨hfront, -⟩ := List.append_inj hsplit (Memory.length_bytes m 0 _)
  have hcarries : Carries m b := by
    rw [b.length_front] at hfront
    exact hfront
  obtain ⟨h0, h1, -, hsize⟩ := hcarries.header
  have hpacket : m.isMipPacket = .ok := isMipPacket_iff.mpr ⟨h0, h1⟩
  refine ⟨hcarries, hpacket, (isChecksumValid_iff hpacket).mpr ?_⟩
  rw [hsize, ← b.length_encode, h]
  exact ⟨b.front, _, _, rfl, rfl⟩

end Finalize

/-! ## Reading -/

/-- The next field of a packet, where the bytes are those of a field. -/
theorem getNextField_eq (hpacket : m.isMipPacket = .ok) {f : Field} {offset : ℕ}
    (hend : offset + f.size ≤ m.payload)
    (hbytes : m.bytes (headerSize + offset) f.size = f.bytes) :
    m.getNextField offset = (.ok, headerSize + offset, offset + f.size) ∧
      m.fieldAt (headerSize + offset) = (f.descriptor, f.data) := by
  have hpayload : m.payload < 256 := (m 3).toNat_lt
  have hsize : f.size = f.data.length + 2 := rfl
  rw [hsize, Memory.bytes_cons, Memory.bytes_cons] at hbytes
  obtain ⟨h0, h1, hdata⟩ : m (headerSize + offset) = UInt8.ofNat f.size ∧
      m (headerSize + offset + 1) = f.descriptor ∧
      m.bytes (headerSize + offset + 2) f.data.length = f.data := by
    simpa [Field.bytes] using hbytes
  have hbyte : (m (headerSize + offset)).toNat = f.size := by
    rw [h0, UInt8.toNat_ofNat']
    exact Nat.mod_eq_of_lt (by omega)
  have hne : m (headerSize + offset) ≠ 0 := by
    intro h
    rw [h] at hbyte
    have hzero : (0 : UInt8).toNat = 0 := rfl
    omega
  constructor
  · unfold Memory.getNextField
    simp only [if_neg (not_not.mpr hpacket), if_neg (show ¬m.payload ≤ offset by omega),
      if_neg hne, hbyte]
  · unfold Memory.fieldAt
    rw [h1, hbyte, hsize, fieldHeaderSize, Nat.add_sub_cancel, hdata]

/-- Behind the last field there is none. -/
theorem getNextField_of_le (hpacket : m.isMipPacket = .ok) {offset : ℕ} (h : m.payload ≤ offset) :
    m.getNextField offset = (.fieldNotAvailable, 0, offset) := by
  unfold Memory.getNextField
  rw [if_neg (not_not.mpr hpacket), if_pos h]

theorem sizeOfFields_cons (f : Field) (rest : List Field) :
    sizeOfFields (f :: rest) = f.size + sizeOfFields rest := by
  simp [sizeOfFields]

/-- The bytes of the first field, and those of the others. -/
theorem bytes_fields {f : Field} {rest : List Field}
    (h : m.bytes a (sizeOfFields (f :: rest)) = (f :: rest).flatMap Field.bytes) :
    m.bytes a f.size = f.bytes ∧
      m.bytes (a + f.size) (sizeOfFields rest) = rest.flatMap Field.bytes := by
  rw [sizeOfFields_cons, Memory.bytes_add, List.flatMap_cons] at h
  exact List.append_inj h (Memory.length_bytes m _ _)

/-- A packet has not more fields than that. -/
theorem Body.length_fields (b : Body) : 2 * b.fields.length ≤ b.size := by
  unfold Body.size
  induction b.fields with
  | nil => exact Nat.le_refl _
  | cons f fields ih =>
    have hf : f.size = f.data.length + 2 := rfl
    rw [sizeOfFields_cons, List.length_cons]
    omega

/-- The fields from an offset on are read as they were written. -/
theorem readFields_eq (hpacket : m.isMipPacket = .ok) (rest : List Field) (fuel offset : ℕ)
    (hend : offset + sizeOfFields rest = m.payload) (hfuel : rest.length < fuel)
    (hbytes : m.bytes (headerSize + offset) (sizeOfFields rest) = rest.flatMap Field.bytes) :
    m.readFields fuel offset =
      (rest.map fun f => (f.descriptor, f.data), .fieldNotAvailable) := by
  induction rest generalizing fuel offset with
  | nil =>
    obtain ⟨fuel, rfl⟩ := Nat.exists_eq_succ_of_ne_zero (Nat.ne_of_gt hfuel)
    have hlast : m.getNextField offset = (.fieldNotAvailable, 0, offset) :=
      getNextField_of_le hpacket (Nat.le_of_eq hend.symm)
    rw [Memory.readFields, hlast]
    rfl
  | cons f rest ih =>
    obtain ⟨fuel, rfl⟩ :=
      Nat.exists_eq_succ_of_ne_zero (Nat.ne_of_gt (Nat.lt_of_le_of_lt (Nat.zero_le _) hfuel))
    obtain ⟨hfield, hrest⟩ := bytes_fields hbytes
    rw [sizeOfFields_cons] at hend
    rw [List.length_cons] at hfuel
    obtain ⟨hone, hat⟩ := getNextField_eq hpacket (by omega) hfield
    have hnext := ih fuel (offset + f.size) (by omega) (by omega)
      (by rw [← Nat.add_assoc]; exact hrest)
    rw [Memory.readFields, hone]
    simp only [hnext, hat, List.map_cons]

/-- A packet in memory is read as it was built. -/
theorem readFields_of_encode {b : Body} (h : m.bytes 0 b.encode.length = b.encode) :
    m.readFields 256 0 =
      (b.fields.map fun f => (f.descriptor, f.data), .fieldNotAvailable) := by
  obtain ⟨hcarries, hpacket, -⟩ := carries_of_encode h
  obtain ⟨-, -, -, hsize⟩ := hcarries.header
  have hfits : b.size ≤ 255 := b.fits
  have hlen := b.length_fields
  refine readFields_eq hpacket b.fields 256 0 ?_ (by omega) ?_
  · rw [Nat.zero_add, hsize]
    rfl
  · exact hcarries.payload

/-! ## A whole packet -/

/-- Some calls, one after the other. -/
def Memory.performAll (m : Memory) (bufferSize : ℕ) (calls : List Addition) : Memory :=
  calls.foldl (fun m call => (m.perform bufferSize call).2) m

/-- The body after some fields were added, each if it still fits. -/
def Body.addAll (bufferSize : ℕ) (b : Body) (fields : List Field) : Body :=
  fields.foldl (Body.add bufferSize) b

theorem Body.size_le_add (bufferSize : ℕ) (b : Body) (f : Field) :
    b.size ≤ (b.add bufferSize f).size := by
  rcases Nat.lt_or_ge (min maxPacketSize bufferSize)
    (headerSize + b.size + f.size + checksumSize) with hlt | hle
  · rw [b.add_of_lt hlt]
  · simp [Body.size, (b.add_of_le hle).2, sizeOfFields]

theorem Body.size_le_addAll (bufferSize : ℕ) (b : Body) (fields : List Field) :
    b.size ≤ (b.addAll bufferSize fields).size := by
  induction fields generalizing b with
  | nil => exact Nat.le_refl _
  | cons f fields ih =>
    exact Nat.le_trans (b.size_le_add bufferSize f) (ih (b.add bufferSize f))

/-- What a run of calls does. -/
theorem Carries.performAll {b : Body} {bufferSize : ℕ} (calls : List Addition)
    (hproper : ∀ call ∈ calls, call.Proper) (h : Carries m b)
    (hroom : headerSize + b.size + checksumSize ≤ bufferSize) :
    Carries (m.performAll bufferSize calls)
        (b.addAll bufferSize (calls.map Addition.asField)) ∧
      headerSize + (b.addAll bufferSize (calls.map Addition.asField)).size + checksumSize ≤
        bufferSize ∧
      ∀ i, headerSize + (b.addAll bufferSize (calls.map Addition.asField)).size + checksumSize ≤ i →
        m.performAll bufferSize calls i = m i := by
  induction calls generalizing m b with
  | nil => exact ⟨h, hroom, fun _ _ => rfl⟩
  | cons call calls ih =>
    obtain ⟨hcall, hcalls⟩ := List.forall_mem_cons.mp hproper
    obtain ⟨hone, hkept⟩ : Carries _ (b.add bufferSize call.asField) ∧ _ := h.perform hcall
    have hroom' :
        headerSize + (b.add bufferSize call.asField).size + checksumSize ≤ bufferSize := by
      rcases Nat.lt_or_ge (min maxPacketSize bufferSize)
        (headerSize + b.size + call.asField.size + checksumSize) with hlt | hle
      · rwa [b.add_of_lt hlt]
      · have hgrown : (b.add bufferSize call.asField).size = b.size + call.asField.size := by
          simp [Body.size, (b.add_of_le hle).2, sizeOfFields]
        rw [hgrown]
        exact Nat.le_trans (Nat.le_of_eq (by omega)) (Nat.le_trans hle (Nat.min_le_right _ _))
    obtain ⟨h1, h2, h3⟩ := ih hcalls hone hroom'
    refine ⟨h1, h2, fun i hi => (h3 i hi).trans (hkept i ?_)⟩
    have hle := (b.add bufferSize call.asField).size_le_addAll bufferSize
      (calls.map Addition.asField)
    exact Nat.le_trans (Nat.add_le_add_right (Nat.add_le_add_left hle _) _) hi

theorem Body.descriptorSet_add (bufferSize : ℕ) (b : Body) (f : Field) :
    (b.add bufferSize f).descriptorSet = b.descriptorSet := by
  unfold Body.add
  split_ifs <;> rfl

theorem Body.descriptorSet_addAll (bufferSize : ℕ) (b : Body) (fields : List Field) :
    (b.addAll bufferSize fields).descriptorSet = b.descriptorSet := by
  induction fields generalizing b with
  | nil => rfl
  | cons f fields ih => exact (ih (b.add bufferSize f)).trans (b.descriptorSet_add bufferSize f)

/-- A packet that is built in a buffer: it has the fields that fitted, in the order of the calls, it
is valid and of its set, it is read as it was built, and no byte behind it is written. -/
theorem build_eq (m : Memory) {bufferSize : ℕ} (descriptorSet : UInt8) (calls : List Addition)
    (hsize : headerSize + checksumSize ≤ bufferSize) (hproper : ∀ call ∈ calls, call.Proper) :
    let b := (Body.empty descriptorSet).addAll bufferSize (calls.map Addition.asField)
    let r := ((m.init bufferSize descriptorSet).2.performAll bufferSize calls).finalize
    r.1 = b.encode.length ∧ r.1 ≤ bufferSize ∧ r.2.bytes 0 r.1 = b.encode ∧
      r.2.isChecksumValid = .ok ∧ r.2.getPacketSize = r.1 ∧
      r.2.isInitialized descriptorSet = .ok ∧ r.2.getPacketDescriptorSet = descriptorSet ∧
      r.2.readFields 256 0 =
        (b.fields.map fun f => (f.descriptor, f.data), .fieldNotAvailable) ∧
      ∀ i, r.1 ≤ i → r.2 i = m i := by
  obtain ⟨-, hinit⟩ := carries_init (m := m) hsize descriptorSet
  obtain ⟨hall, hroom, hkept⟩ := hinit.performAll calls hproper hsize
  obtain ⟨hlen, hbytes, hbehind⟩ := hall.finalize
  obtain ⟨hcarries, hpacket, hvalid⟩ := carries_of_encode hbytes
  obtain ⟨hsync1, hsync2, hset, hpayload⟩ := hcarries.header
  rw [Body.descriptorSet_addAll] at hset
  have hcount := ((Body.empty descriptorSet).addAll bufferSize
    (calls.map Addition.asField)).length_encode
  refine ⟨hlen, ?_, ?_, hvalid, ?_, if_pos ⟨hsync1, hsync2, hset⟩, ?_,
    readFields_of_encode hbytes, fun i hi => ?_⟩
  · rw [hlen, hcount]
    unfold headerSize checksumSize at hroom ⊢
    omega
  · rw [hlen, hbytes]
  · unfold Memory.getPacketSize
    rw [if_pos hpacket, hpayload, hlen, hcount]
  · unfold Memory.getPacketDescriptorSet
    rw [if_pos hpacket]
    exact hset
  · rw [hlen] at hi
    rw [hbehind i hi]
    rw [hcount] at hi
    unfold headerSize checksumSize at hi
    have hinside : (m.init bufferSize descriptorSet).2 i = m i := by
      unfold Memory.init
      rw [if_neg (Nat.not_lt.mpr hsize)]
      exact Memory.copy_of_le (show 0 + 4 ≤ i by omega)
    rw [hkept i (by unfold headerSize checksumSize; omega), hinside]

/-- Two fields fit into a buffer of twelve bytes, and a long one between them does not. -/
theorem build_eq_two :
    (((Memory.init (fun _ => 0) 12 0x80).2.performAll 12
      [.field [1] 4, .field [1, 2, 3, 4] 5, .field [2] 6]).finalize).2.readFields 256 0 =
      ([(4, [1]), (6, [2])], .fieldNotAvailable) := by
  obtain ⟨-, -, -, -, -, -, -, hread, -⟩ := build_eq (fun _ => 0) 0x80
    [.field [1] 4, .field [1, 2, 3, 4] 5, .field [2] 6]
    (show headerSize + checksumSize ≤ 12 by decide)
    (by simp [Addition.Proper, maxPacketSize, headerSize, maxPayloadSize, checksumSize,
      fieldHeaderSize])
  exact hread

end Guillemot.Mip
