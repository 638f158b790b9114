import Guillemot.Imu.FieldWalk

/-!
# `MipPacket`: frames, their checksum, and what a round trip keeps

`MipPacket.cpp`: `serialize` writes a packet into a buffer that it allocates, `deserialize` reads
one from a frame and compares the checksum in its last two bytes with `calculateChecksum` of the
rest. `calculateChecksum_of_readable` and `deserialize_total` describe the two on readable memory.

A field that is built by its constructor and setters (`BuiltField`) has length zero, since only
`deserializeHeader` sets `m_fieldLength`. So `serialize` never moves past such a field, and the
checksum overwrites what it wrote of it (`serialize_built`); besides, `serialize` keeps four bits of
the low checksum byte only. `roundTrips_iff` says which packets survive both.
-/

namespace Guillemot.Imu

/-! ## Constants of `MipPacket` -/

/-- `SYNC_1_OFFSET`, and the offsets after it. -/
def sync1Offset : ℕ := 0

@[inherit_doc sync1Offset]
def sync2Offset : ℕ := 1

@[inherit_doc sync1Offset]
def descriptorOffset : ℕ := 2

@[inherit_doc sync1Offset]
def payloadLengthOffset : ℕ := 3

@[inherit_doc sync1Offset]
def payloadOffset : ℕ := 4

/-- `SYNC_BYTE_1_VALUE`. -/
def syncByte1Value : UInt8 := 0x75

/-- `SYNC_BYTE_2_VALUE`. -/
def syncByte2Value : UInt8 := 0x65

/-- `MIP_PACKET_HEADER_SIZE`. -/
def mipPacketHeaderSize : ℕ := 4

/-- `MIP_PACKET_FOOTER_SIZE`. -/
def mipPacketFooterSize : ℕ := 2

/-! ## The packet -/

/-- `MipPacket`. -/
structure MipPacket where
  /-- `m_sync1`. -/
  sync1 : UInt8
  /-- `m_sync2`. -/
  sync2 : UInt8
  /-- `m_descriptorSet`. -/
  descriptorSet : UInt8
  /-- `m_payloadLength`. -/
  payloadLength : UInt8
  /-- `m_fieldList`. -/
  fieldList : MipFieldList
  /-- `m_checksumMsb`. -/
  checksumMsb : UInt8
  /-- `m_checksumLsb`. -/
  checksumLsb : UInt8
  /-- `m_goodChecksum`. -/
  goodChecksum : Bool
deriving DecidableEq, Repr

/-- One round of the loop of `calculateChecksum`, on `byte1` and `byte2`. -/
def checksumStep (s : UInt8 × UInt8) (b : UInt8) : UInt8 × UInt8 := (s.1 + b, s.2 + (s.1 + b))

/-- The checksum of a list of bytes. -/
def checksumOf (bytes : List UInt8) : UInt16 :=
  let (byte1, byte2) := bytes.foldl checksumStep (0, 0)
  byte1.toUInt16 <<< 8 ||| byte2.toUInt16

/-- `MipPacket::calculateChecksum`. -/
def calculateChecksum (pBuf : Buf) (size : ℤ) : Option UInt16 := do
  let (byte1, byte2) ← (List.range size.toNat).foldlM
    (fun s i => do return checksumStep s (← pBuf i)) ((0, 0) : UInt8 × UInt8)
  return byte1.toUInt16 <<< 8 ||| byte2.toUInt16

namespace MipPacket

/-- The constructor, which leaves `m_goodChecksum` as it finds it. -/
def new (goodChecksum : Bool) : MipPacket where
  sync1 := syncByte1Value
  sync2 := syncByte2Value
  descriptorSet := 0
  payloadLength := 0
  fieldList := .new
  checksumMsb := 0
  checksumLsb := 0
  goodChecksum

/-- `MipPacket::addMipField`. -/
def addMipField (packet : MipPacket) (pField : Option MipField) : Option MipPacket := do
  return { packet with fieldList := ← packet.fieldList.add pField }

/-- The loop of `MipPacket::serialize` over the fields of the list: `pos`, and the buffer of `size`
bytes. -/
def serializeFields (size : ℕ) : List (Option MipField) → ℕ × List UInt8 →
    Option (ℕ × List UInt8)
  | [], s => some s
  | none :: rest, s => serializeFields size rest s
  | some field :: rest, (pos, buf) => do
    let (_, buf) ← field.serialize buf pos (toUInt8 (size - pos))
    serializeFields size rest (pos + field.getFieldLength.toNat, buf)

/-- `MipPacket::serialize`, into an allocation that holds the bytes of `memory`: the value returned
and the buffer. Undefined when a write is outside of the allocation. -/
def serialize (packet : MipPacket) (memory : ℕ → UInt8) : Option (ℕ × List UInt8) := do
  let size := mipPacketHeaderSize + payloadLengthOffset + mipPacketFooterSize
  let buf := (List.range size).map memory
  let buf ← poke buf sync1Offset syncByte1Value
  let buf ← poke buf sync2Offset syncByte2Value
  let buf ← poke buf descriptorOffset packet.descriptorSet
  let buf ← poke buf payloadLengthOffset packet.payloadLength
  let (pos, buf) ← serializeFields size (← packet.fieldList.iterate) (4, buf)
  let checksum ← calculateChecksum (.ofList buf) pos
  let buf ← poke buf pos (checksum >>> 8).toUInt8
  let buf ← poke buf (pos + 1) (checksum &&& 0xf).toUInt8
  return (pos + 2, buf)

/-- `MipPacket::deserialize`, for at most `fuel` rounds of the field decoder. -/
def deserialize (packet : MipPacket) (pBuf : Buf) (size : ℤ) (fuel : ℕ) : Outcome MipPacket := do
  let sync1 ← .ofOption (pBuf sync1Offset)
  let sync2 ← .ofOption (pBuf sync2Offset)
  let descriptorSet ← .ofOption (pBuf descriptorOffset)
  let payloadLength ← .ofOption (pBuf payloadLengthOffset)
  let decoding ← packet.fieldList.deserialize descriptorSet (pBuf.offset payloadOffset)
    (size - mipPacketHeaderSize - mipPacketFooterSize) fuel
  let checksum ← .ofOption (calculateChecksum pBuf (size - mipPacketFooterSize))
  let testChecksum ← .ofOption (getUInt16 (pBuf.offsetInt (size - mipPacketFooterSize)))
  return { packet with
    sync1, sync2, descriptorSet, payloadLength
    fieldList := decoding.list
    goodChecksum := checksum = testChecksum }

/-- `MipPacket::isChecksumGood`. -/
def isChecksumGood (packet : MipPacket) : Bool := packet.goodChecksum

end MipPacket

/-! ## The checksum -/

/-- The loop of `calculateChecksum` over indices that can be read. -/
theorem foldlM_checksumStep {pBuf : Buf} {m : ℕ → UInt8} (is : List ℕ)
    (h : ∀ i ∈ is, pBuf i = some (m i)) (s : UInt8 × UInt8) :
    is.foldlM (fun s i => do return checksumStep s (← pBuf i)) s =
      some ((is.map m).foldl checksumStep s) := by
  induction is generalizing s with
  | nil => rfl
  | cons i is ih =>
    have hi := h i (by simp)
    have his := ih (fun j hj => h j (by simp [hj])) (checksumStep s (m i))
    simp only [List.foldlM_cons, hi, Option.bind_eq_bind, Option.bind_some, Option.pure_def,
      List.map_cons, List.foldl_cons]
    exact his

/-- `calculateChecksum` when what it reads can be read. -/
theorem calculateChecksum_of_readable {pBuf : Buf} {m : ℕ → UInt8} {size : ℤ}
    (h : ∀ i < size.toNat, pBuf i = some (m i)) :
    calculateChecksum pBuf size = some (checksumOf ((List.range size.toNat).map m)) := by
  have hloop := foldlM_checksumStep (List.range size.toNat)
    (fun i hi => h i (List.mem_range.mp hi)) (0, 0)
  simp only [calculateChecksum, hloop]
  rfl

/-- `calculateChecksum` of the first bytes of a buffer. -/
theorem calculateChecksum_ofList (bytes rest : List UInt8) :
    calculateChecksum (.ofList (bytes ++ rest)) bytes.length = some (checksumOf bytes) := by
  have hread : ∀ i < (bytes.length : ℤ).toNat,
      Buf.ofList (bytes ++ rest) i = some (bytes.getD i 0) := by
    intro i hi
    have hi' : i < bytes.length := by omega
    simp [Buf.ofList, List.getElem?_append_left hi', hi']
  rw [calculateChecksum_of_readable hread]
  congr 2
  refine List.ext_getElem (by simp) fun i hi hi' => ?_
  simp [hi']

/-! ## What `deserialize` does on readable memory -/

/-- The frame of `size` bytes at the start of `m`, without its checksum. -/
def checkedBytes (m : ℕ → UInt8) (size : ℤ) : List UInt8 :=
  (List.range (size - mipPacketFooterSize).toNat).map m

/-- The last two bytes of the frame of `size` bytes at the start of `m` are its checksum. -/
def ChecksumMatches (m : ℕ → UInt8) (size : ℤ) : Prop :=
  checksumOf (checkedBytes m size) =
    (m (size - 2).toNat).toUInt16 <<< 8 ||| (m ((size - 2).toNat + 1)).toUInt16

instance (m : ℕ → UInt8) (size : ℤ) : Decidable (ChecksumMatches m size) := by
  unfold ChecksumMatches
  infer_instance

/-- The packet that `deserialize` makes of the frame of `size` bytes at the start of `m`, once its
fields are decoded. -/
def MipPacket.received (packet : MipPacket) (m : ℕ → UInt8) (size : ℤ) (fieldList : MipFieldList) :
    MipPacket :=
  { packet with
    sync1 := m 0
    sync2 := m 1
    descriptorSet := m 2
    payloadLength := m 3
    fieldList
    goodChecksum := ChecksumMatches m size }

/-- `deserialize` on readable memory: the field decoder decides whether it ends, and the checksum
only what `isChecksumGood` returns. -/
theorem MipPacket.deserialize_total (packet : MipPacket) (m : ℕ → UInt8) {size : ℤ}
    (hsize : 2 ≤ size) (fuel : ℕ) :
    packet.deserialize (.total m) size fuel =
      (packet.fieldList.deserialize (m 2) (.total fun i => m (4 + i)) (size - 6) fuel >>=
        fun decoding => pure (packet.received m size decoding.list)) := by
  have hsub : size - mipPacketHeaderSize - mipPacketFooterSize = size - 6 := by
    simp only [mipPacketHeaderSize, mipPacketFooterSize]
    omega
  have hfooter : size - mipPacketFooterSize = size - 2 := rfl
  have hsum : calculateChecksum (.total m) (size - mipPacketFooterSize) =
      some (checksumOf (checkedBytes m size)) := calculateChecksum_of_readable fun _ _ => rfl
  have hread : getUInt16 ((Buf.total m).offsetInt (size - mipPacketFooterSize)) =
      some ((m (size - 2).toNat).toUInt16 <<< 8 ||| (m ((size - 2).toNat + 1)).toUInt16) := by
    rw [hfooter, Buf.offsetInt_of_nonneg _ (by omega)]
    rfl
  simp only [deserialize, Buf.total_apply, Outcome.ofOption_some, Outcome.done_bind,
    Buf.offset_total, hsub, hsum, hread]
  rfl

/-! ## Building and serializing a packet -/

/-- A call of a setter: of `setX`, `setY` or `setZ`, which `EulerAngles` calls `setYaw`, `setPitch`
and `setRoll` and which a plain `DataField` does not have, or of `setFieldDescriptor`. -/
inductive SetterCall where
  | x (value : UInt32)
  | y (value : UInt32)
  | z (value : UInt32)
  | fieldDescriptor (descriptor : UInt8)
deriving DecidableEq, Repr

/-- The object after a call. -/
def SetterCall.call : SetterCall → MipField → MipField
  | fieldDescriptor descriptor, field => field.setFieldDescriptor descriptor
  | x value, .vector cls obj => .vector cls { obj with x := value }
  | y value, .vector cls obj => .vector cls { obj with y := value }
  | z value, .vector cls obj => .vector cls { obj with z := value }
  | _, .dataField header => .dataField header

/-- A field as the callers of `addMipField` can build it: the constructor of one of the classes of
`deserializeToField`, the plain `DataField` for `none`, and calls of its setters. -/
structure BuiltField where
  /-- The class. -/
  cls : Option VectorClass
  /-- The calls, the first one first. -/
  calls : List SetterCall
deriving DecidableEq, Repr

/-- The constructor of a class. -/
def MipField.construct : Option VectorClass → MipField
  | some cls => .vector cls .new
  | none => .dataField .new

/-- The object that is built. -/
def BuiltField.object (f : BuiltField) : MipField :=
  f.calls.foldl (fun field c => c.call field) (.construct f.cls)

@[simp]
theorem SetterCall.getFieldLength_call (c : SetterCall) (field : MipField) :
    (c.call field).getFieldLength = field.getFieldLength := by
  cases c <;> cases field <;> rfl

/-- No setter sets `m_fieldLength`, which the constructor leaves at zero. -/
@[simp]
theorem BuiltField.getFieldLength_object (f : BuiltField) : f.object.getFieldLength = 0 := by
  have hcalls : ∀ (calls : List SetterCall) (field : MipField),
      (calls.foldl (fun field c => c.call field) field).getFieldLength = field.getFieldLength := by
    intro calls
    induction calls with
    | nil => exact fun _ => rfl
    | cons c calls ih =>
      intro field
      rw [List.foldl_cons, ih, SetterCall.getFieldLength_call]
  unfold object
  rw [hcalls]
  cases f.cls <;> rfl

/-- Calls of `addMipField` with the objects of `fields`. -/
def MipPacket.addFields (packet : MipPacket) (fields : List BuiltField) : Option MipPacket :=
  fields.foldlM (fun packet f => packet.addMipField (some f.object)) packet

/-- Calls of `addMipField` append their fields to the list, and change nothing else. -/
theorem MipPacket.addFields_represents (packet : MipPacket) {xs : List MipField}
    (h : packet.fieldList.Represents xs) (fields : List BuiltField) :
    ∃ list, packet.addFields fields = some { packet with fieldList := list } ∧
      list.Represents (xs ++ fields.map BuiltField.object) := by
  induction fields generalizing packet xs with
  | nil => exact ⟨packet.fieldList, rfl, by simpa using h⟩
  | cons f fields ih =>
    obtain ⟨list, hadd, hlist⟩ := MipFieldList.add_represents h f.object
    obtain ⟨list', hadds, hlist'⟩ := ih { packet with fieldList := list } hlist
    refine ⟨list', ?_, by simpa using hlist'⟩
    simp only [addFields, List.foldlM_cons, addMipField, hadd, Option.bind_eq_bind,
      Option.bind_some, Option.pure_def]
    exact hadds

/-- The four bytes that `serialize` writes first. -/
def MipPacket.headerBytes (packet : MipPacket) : List UInt8 :=
  [syncByte1Value, syncByte2Value, packet.descriptorSet, packet.payloadLength]

/-- A field serialized at the end of the header: in the five bytes that are left of the allocation,
a vector class writes nothing and a plain `DataField` its two header bytes. -/
theorem MipField.serialize_after_header (field : MipField) (hdr : List UInt8)
    (hhdr : hdr.length = 4) (b0 b1 b2 b3 b4 : UInt8) :
    ∃ ret c0 c1, field.serialize (hdr ++ [b0, b1, b2, b3, b4]) 4 5 =
      some (ret, hdr ++ [c0, c1, b2, b3, b4]) := by
  cases field with
  | dataField header =>
    refine ⟨2, header.fieldLength, header.fieldDescriptor, ?_⟩
    simp [MipField.serialize, serializeHeader, minMipFieldHeaderSize, poke, fieldLengthOffset,
      fieldDescriptorOffset, hhdr]
  | vector cls obj =>
    -- Five bytes are fewer than the static size.
    refine ⟨0, b0, b1, ?_⟩
    have hsize : ¬ VectorLayout.afterHeader.staticSize ≤ (5 : UInt8).toNat := by decide
    rw [MipField.serialize, VectorClass.serialize_eq, vectorSerialize, if_neg hsize,
      Option.pure_def]

/-- Built fields are serialized one over the other, each at the end of the header. -/
theorem MipPacket.serializeFields_built (fields : List BuiltField) (hdr : List UInt8)
    (hhdr : hdr.length = 4) (b0 b1 b2 b3 b4 : UInt8) :
    ∃ c0 c1, serializeFields 9 (fields.map fun f => some f.object)
        (4, hdr ++ [b0, b1, b2, b3, b4]) = some (4, hdr ++ [c0, c1, b2, b3, b4]) := by
  induction fields generalizing b0 b1 with
  | nil => exact ⟨b0, b1, rfl⟩
  | cons f fields ih =>
    obtain ⟨ret, c0, c1, hfield⟩ := f.object.serialize_after_header hdr hhdr b0 b1 b2 b3 b4
    obtain ⟨d0, d1, hrest⟩ := ih c0 c1
    refine ⟨d0, d1, ?_⟩
    -- The position stays at the end of the header, since the field's length is zero.
    have hsize : toUInt8 ((9 : ℕ) - (4 : ℕ)) = 5 := rfl
    simp only [List.map_cons, serializeFields, hsize, hfield, Option.bind_eq_bind,
      Option.bind_some, BuiltField.getFieldLength_object]
    exact hrest

/-- What `serialize` makes of a packet with built fields: the header and a checksum of the header,
and nothing of the fields. Every write is inside of the allocation. -/
theorem MipPacket.serialize_built {packet : MipPacket} {fields : List BuiltField}
    (h : packet.fieldList.Represents (fields.map BuiltField.object)) (memory : ℕ → UInt8) :
    packet.serialize memory = some (6, packet.headerBytes ++
      [(checksumOf packet.headerBytes >>> 8).toUInt8,
        (checksumOf packet.headerBytes &&& 0xf).toUInt8, memory 6, memory 7, memory 8]) := by
  obtain ⟨c0, c1, hfields⟩ := serializeFields_built fields packet.headerBytes rfl
    (memory 4) (memory 5) (memory 6) (memory 7) (memory 8)
  have hiter : packet.fieldList.iterate = some (fields.map fun f => some f.object) := by
    rw [MipFieldList.iterate_eq h, List.map_map]
    rfl
  have hsum : calculateChecksum (.ofList (packet.headerBytes ++
      [c0, c1, memory 6, memory 7, memory 8])) 4 = some (checksumOf packet.headerBytes) :=
    calculateChecksum_ofList packet.headerBytes _
  have hbuf : (List.range 9).map memory = [memory 0, memory 1, memory 2, memory 3, memory 4,
    memory 5, memory 6, memory 7, memory 8] := rfl
  simp only [headerBytes, List.cons_append, List.nil_append] at hfields hsum
  simp [serialize, mipPacketHeaderSize, payloadLengthOffset, mipPacketFooterSize, hbuf, hiter, poke,
    sync1Offset, sync2Offset, descriptorOffset, hfields, hsum, headerBytes]

/-! ## The round trip -/

/-- `serialize` writes `packet` inside its allocation, and `deserialize` of what it wrote, into a
fresh packet, gives the same descriptor set and the same fields, with a good checksum. -/
def MipPacket.RoundTrips (packet : MipPacket) (memory : ℕ → UInt8) (garbage : Bool) : Prop :=
  ∃ size buf, packet.serialize memory = some (size, buf) ∧
    ∃ fuel packet', (MipPacket.new garbage).deserialize (.ofList buf) size fuel = .done packet' ∧
      packet'.descriptorSet = packet.descriptorSet ∧
      packet'.fieldList.iterate = packet.fieldList.iterate ∧
      packet'.isChecksumGood = true

/-- A packet of the IMU data set with an empty field list, and the other members as in `base`. -/
def MipPacket.emptyImu (base : MipPacket) : MipPacket :=
  { base with descriptorSet := descriptorSetImuData, fieldList := .new }

/-- A frame without payload has no fields. -/
theorem deserialize_empty (ds : UInt8) (pBuf : Buf) (fuel : ℕ) :
    MipFieldList.new.deserialize ds pBuf 0 fuel = .done ⟨0, .new⟩ :=
  Loop.whileLoop_of_false rfl fuel

/-- `deserialize` of the six bytes that `serialize` writes of a packet with built fields. -/
theorem MipPacket.deserialize_serialized (garbage : Bool) (b0 b1 b2 b3 b4 b5 : UInt8)
    (rest : List UInt8) (fuel : ℕ) :
    (MipPacket.new garbage).deserialize (.ofList (b0 :: b1 :: b2 :: b3 :: b4 :: b5 :: rest)) 6
        fuel =
      .done { MipPacket.new garbage with
        sync1 := b0, sync2 := b1, descriptorSet := b2, payloadLength := b3
        goodChecksum := checksumOf [b0, b1, b2, b3] = b4.toUInt16 <<< 8 ||| b5.toUInt16 } := by
  have hsum : calculateChecksum (.ofList (b0 :: b1 :: b2 :: b3 :: b4 :: b5 :: rest)) 4 =
      some (checksumOf [b0, b1, b2, b3]) :=
    calculateChecksum_ofList [b0, b1, b2, b3] _
  simp [deserialize, sync1Offset, sync2Offset, descriptorOffset, payloadLengthOffset, Buf.ofList,
    mipPacketHeaderSize, mipPacketFooterSize, MipPacket.new, deserialize_empty, getUInt16,
    Buf.offsetInt, hsum]

/-- The checksum of the header of an IMU packet. -/
theorem checksumOf_imuHeader (p : UInt8) :
    checksumOf [syncByte1Value, syncByte2Value, descriptorSetImuData, p] =
      (0x5a + p).toUInt16 <<< 8 ||| (0x03 + p).toUInt16 := by
  have hlow : (0xa9 : UInt8) + (0x5a + p) = 0x03 + p := by
    rw [← UInt8.add_assoc]
    rfl
  rw [← hlow]
  rfl

/-- The two bytes that `serialize` writes of a checksum: the high one, and the low four bits of the
low one. -/
theorem written_word (hi lo : UInt8) :
    ((hi.toUInt16 <<< 8 ||| lo.toUInt16) >>> 8).toUInt8 = hi ∧
      ((hi.toUInt16 <<< 8 ||| lo.toUInt16) &&& 0xf).toUInt8 = lo % 16 := by
  have hlo := lo.toNat_lt
  have hhi := hi.toNat_lt
  have hword := toNat_word hi lo
  constructor
  · rw [← UInt8.toNat_inj]
    simp only [UInt16.toNat_toUInt8, UInt16.toNat_shiftRight, hword]
    rw [show (8 : UInt16).toNat % 16 = 8 from rfl, Nat.shiftRight_eq_div_pow]
    omega
  · rw [← UInt8.toNat_inj]
    simp only [UInt16.toNat_toUInt8, UInt16.toNat_and, hword, UInt8.toNat_mod]
    rw [show (0xf : UInt16).toNat = 2 ^ 4 - 1 from rfl, Nat.and_two_pow_sub_one_eq_mod,
      show (16 : UInt8).toNat = 16 from rfl]
    omega

/-- A low checksum byte survives `serialize` when it fits four bits. -/
theorem mod_sixteen_eq_iff (lo : UInt8) : lo = lo % 16 ↔ lo < 16 := by
  rw [← UInt8.toNat_inj, UInt8.toNat_mod, UInt8.lt_iff_toNat_lt,
    show (16 : UInt8).toNat = 16 from rfl]
  omega

/-- The round trip of an IMU packet whose list holds built fields. -/
theorem MipPacket.roundTrips_built_iff (packet : MipPacket) {fields : List BuiltField}
    (h : packet.fieldList.Represents (fields.map BuiltField.object))
    (hset : packet.descriptorSet = descriptorSetImuData) (memory : ℕ → UInt8) (garbage : Bool) :
    packet.RoundTrips memory garbage ↔ fields = [] ∧ 0x03 + packet.payloadLength < 16 := by
  have hiter := MipFieldList.iterate_eq h
  have hempty : MipFieldList.new.iterate = some [] := rfl
  -- What is written, and what is read back from it.
  have hserialize := serialize_built h memory
  obtain ⟨hhi, hlo⟩ := written_word (0x5a + packet.payloadLength) (0x03 + packet.payloadLength)
  simp only [headerBytes, hset, checksumOf_imuHeader, List.cons_append, List.nil_append, hhi, hlo]
    at hserialize
  have hdeserialize := deserialize_serialized garbage syncByte1Value syncByte2Value
    descriptorSetImuData packet.payloadLength (0x5a + packet.payloadLength)
    ((0x03 + packet.payloadLength) % 16) [memory 6, memory 7, memory 8]
  rw [checksumOf_imuHeader] at hdeserialize
  constructor
  · rintro ⟨size, buf, hs, fuel, packet', hd, -, hfields, hgood⟩
    obtain ⟨rfl, rfl⟩ : size = 6 ∧ _ = buf := by
      simpa [hserialize, eq_comm] using hs
    have hd' := (hdeserialize fuel).symm.trans hd
    injection hd' with hd'
    subst hd'
    constructor
    · -- The decoded packet has no fields.
      have hlist : (fields.map BuiltField.object).map some = [] := by
        rw [hiter] at hfields
        exact (Option.some.inj hfields).symm
      simpa using hlist
    · -- The low checksum byte is the one that was written of it.
      have hword := of_decide_eq_true hgood
      exact (mod_sixteen_eq_iff _).mp (word_inj.mp hword).2
  · rintro ⟨rfl, hsum⟩
    refine ⟨6, _, hserialize, 0, _, hdeserialize 0, hset.symm, ?_, ?_⟩
    · rw [hiter]
      exact hempty
    · exact decide_eq_true (word_inj.mpr ⟨rfl, (mod_sixteen_eq_iff _).mpr hsum⟩)

/-- A round trip keeps a packet of the IMU data set whose fields were built by constructors and
setters exactly when it has no fields and its checksum fits what is written of it, which for a
packet without fields is a condition on its payload length alone. -/
theorem roundTrips_iff (base : MipPacket) (fields : List BuiltField) (memory : ℕ → UInt8)
    (garbage : Bool) :
    (∃ packet, base.emptyImu.addFields fields = some packet ∧ packet.RoundTrips memory garbage) ↔
      fields = [] ∧ 0x03 + base.payloadLength < 16 := by
  obtain ⟨list, hadd, hlist⟩ :=
    MipPacket.addFields_represents base.emptyImu MipFieldList.new_represents fields
  have hiff := MipPacket.roundTrips_built_iff
    { base.emptyImu with fieldList := list } hlist rfl memory garbage
  constructor
  · rintro ⟨packet, hpacket, htrip⟩
    obtain rfl := Option.some.inj (hadd.symm.trans hpacket)
    exact hiff.mp htrip
  · intro h
    exact ⟨_, hadd, hiff.mpr h⟩

/-- A packet with one `EulerAngles` field, whose yaw and descriptor are set, is not kept. -/
theorem eulerAngles_lost :
    ∃ packet, (MipPacket.new false).emptyImu.addFields
        [⟨some .eulerAngles, [.x 0x3f800000, .fieldDescriptor 0x0c]⟩] = some packet ∧
      ¬ packet.RoundTrips (fun _ => 0) false := by
  obtain ⟨list, hadd, hlist⟩ := MipPacket.addFields_represents
    (MipPacket.new false).emptyImu MipFieldList.new_represents
    [⟨some .eulerAngles, [.x 0x3f800000, .fieldDescriptor 0x0c]⟩]
  refine ⟨_, hadd, fun htrip => ?_⟩
  have hiff := MipPacket.roundTrips_built_iff
    { (MipPacket.new false).emptyImu with fieldList := list } hlist rfl (fun _ => 0) false
  exact List.cons_ne_nil _ _ (hiff.mp htrip).1

end Guillemot.Imu
