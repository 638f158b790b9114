import Guillemot.Imu.BufferRoundTrips
import Guillemot.Imu.MipField
import Guillemot.Library.Binary32

/-!
# The data fields of the IMU package, read and written again

The seven subclasses of `DataField`: besides the four that `deserializeToField` builds there are two
more vector classes, which differ from these in their names only, and `InternalTimestamp`.
`Reencodes` says that an image of a field is written again from what was read of it, byte by byte.

The vector classes read and write floats. `InternalTimestamp` reads an integer, but writes it with
`putFloat32`, which converts it to a float, and no image but two has a time stamp that is its own
conversion (`ofNat_eq_self_iff`).
-/

namespace Guillemot.Imu

/-! ## The classes -/

/-- The enumeration of `RawAccelerometerVector`. -/
def RawAccelerometerVector.layout : VectorLayout := .afterHeader

/-- The enumeration of `DeltaThetaVector`. -/
def DeltaThetaVector.layout : VectorLayout := .afterHeader

/-- `RawAccelerometerVector::serialize`. -/
def RawAccelerometerVector.serialize := vectorSerialize RawAccelerometerVector.layout

/-- `DeltaThetaVector::serialize`. -/
def DeltaThetaVector.serialize := vectorSerialize DeltaThetaVector.layout

/-- `RawAccelerometerVector::deserialize`. -/
def RawAccelerometerVector.deserialize := vectorDeserialize RawAccelerometerVector.layout

/-- `DeltaThetaVector::deserialize`. -/
def DeltaThetaVector.deserialize := vectorDeserialize DeltaThetaVector.layout

/-- `InternalTimestamp`. -/
structure InternalTimestamp where
  /-- The members of `MipField`. -/
  header : FieldHeader
  /-- `m_timestamp`. -/
  timestamp : UInt32
deriving DecidableEq, Repr

namespace InternalTimestamp

/-- `INTERNAL_TIMESTAMP_TIMESTAMP_OFFSET`. -/
def timestampOffset : ℕ := minMipFieldHeaderSize

/-- `INTERNAL_TIMESTAMP_STATIC_SIZE`, with the size of a `UInt32`. -/
def staticSize : ℕ := timestampOffset + 4

/-- The conversion of a `UInt32` to a `Float32`. -/
def toFloat32 (n : UInt32) : UInt32 := UInt32.ofNat (Binary32.ofNat n.toNat)

/-- `InternalTimestamp::serialize`. -/
def serialize (obj : InternalTimestamp) (buf : List UInt8) (pos : ℕ) (size : UInt8) :
    Option (UInt8 × List UInt8) :=
  if staticSize ≤ size.toNat then do
    let (_, buf) ← serializeHeader obj.header buf pos size
    let buf ← putFloat32 buf (pos + timestampOffset) (toFloat32 obj.timestamp)
    return (obj.header.fieldLength, buf)
  else return (0, buf)

/-- `InternalTimestamp::deserialize`. -/
def deserialize (obj : InternalTimestamp) (pBuf : Buf) (size : UInt8) :
    Option (UInt8 × InternalTimestamp) :=
  if minMipFieldHeaderSize ≤ size.toNat then do
    let (_, header) ← deserializeHeader obj.header pBuf size
    if header.fieldLength ≤ size ∧ header.fieldLength.toNat = staticSize then do
      let timestamp ← getUInt32 (pBuf.offset timestampOffset)
      return (header.fieldLength, ⟨header, timestamp⟩)
    else return (0, { obj with header })
  else return (0, obj)

end InternalTimestamp

/-- The subclasses of `DataField`. -/
inductive DataFieldClass where
  | vector (cls : VectorClass)
  | rawAccelerometerVector
  | deltaThetaVector
  | internalTimestamp
deriving DecidableEq, Repr

namespace DataFieldClass

/-- The objects of a class. -/
abbrev Object : DataFieldClass → Type
  | vector _ | rawAccelerometerVector | deltaThetaVector => VectorField
  | internalTimestamp => InternalTimestamp

/-- The static size of a class. -/
def staticSize : DataFieldClass → ℕ
  | vector .scaledAccelerometerVector => ScaledAccelerometerVector.layout.staticSize
  | vector .scaledGyroVector => ScaledGyroVector.layout.staticSize
  | vector .eulerAngles => EulerAngles.layout.staticSize
  | vector .deltaVelocityVector => DeltaVelocityVector.layout.staticSize
  | rawAccelerometerVector => RawAccelerometerVector.layout.staticSize
  | deltaThetaVector => DeltaThetaVector.layout.staticSize
  | internalTimestamp => InternalTimestamp.staticSize

/-- The virtual `serialize`. -/
def serialize : (cls : DataFieldClass) → cls.Object → List UInt8 → ℕ → UInt8 →
    Option (UInt8 × List UInt8)
  | vector cls => cls.serialize
  | rawAccelerometerVector => RawAccelerometerVector.serialize
  | deltaThetaVector => DeltaThetaVector.serialize
  | internalTimestamp => InternalTimestamp.serialize

/-- The virtual `deserialize`. -/
def deserialize : (cls : DataFieldClass) → cls.Object → Buf → UInt8 → Option (UInt8 × cls.Object)
  | vector cls => cls.deserialize
  | rawAccelerometerVector => RawAccelerometerVector.deserialize
  | deltaThetaVector => DeltaThetaVector.deserialize
  | internalTimestamp => InternalTimestamp.deserialize

/-- The static size, as the length byte of a field. -/
def sizeByte (cls : DataFieldClass) : UInt8 := UInt8.ofNat cls.staticSize

/-- A wire image of the static size, with any descriptor and any data. -/
structure Image (cls : DataFieldClass) where
  /-- The descriptor byte. -/
  descriptor : UInt8
  /-- The bytes behind the header. -/
  data : List UInt8
  /-- They fill the static size. -/
  length_data : minMipFieldHeaderSize + data.length = cls.staticSize
deriving DecidableEq

/-- The bytes of an image. -/
def Image.bytes {cls : DataFieldClass} (image : cls.Image) : List UInt8 :=
  cls.sizeByte :: image.descriptor :: image.data

/-- What an object, whatever is in it, reads from an image is written, into any buffer of the static
size, as the image. -/
def Reencodes (cls : DataFieldClass) (image : cls.Image) : Prop :=
  ∀ (obj : cls.Object) (buf : List UInt8), buf.length = cls.staticSize →
    ∃ obj', cls.deserialize obj (.ofList image.bytes) cls.sizeByte = some (cls.sizeByte, obj') ∧
      cls.serialize obj' buf 0 cls.sizeByte = some (cls.sizeByte, image.bytes)

end DataFieldClass

/-! ## Bytes of floats -/

/-- The bytes that a float is read from are the ones it is written to. -/
theorem hostByte_bigEndian (b0 b1 b2 b3 : UInt8) :
    hostByte (bigEndian b0 b1 b2 b3) 3 = b0 ∧ hostByte (bigEndian b0 b1 b2 b3) 2 = b1 ∧
      hostByte (bigEndian b0 b1 b2 b3) 1 = b2 ∧ hostByte (bigEndian b0 b1 b2 b3) 0 = b3 :=
  bigEndian_inj.mp (bigEndian_hostByte _)

/-- The first four bytes of a list. -/
theorem exists_four {n : ℕ} {bytes : List UInt8} (h : bytes.length = 4 + n) :
    ∃ b0 b1 b2 b3 rest, bytes = b0 :: b1 :: b2 :: b3 :: rest ∧ rest.length = n := by
  rw [Nat.add_comm] at h
  obtain ⟨b0, bytes, rfl⟩ := List.exists_cons_of_length_eq_add_one h
  obtain ⟨b1, bytes, rfl⟩ := List.exists_cons_of_length_eq_add_one (Nat.succ.inj h)
  obtain ⟨b2, bytes, rfl⟩ := List.exists_cons_of_length_eq_add_one (Nat.succ.inj (Nat.succ.inj h))
  obtain ⟨b3, bytes, rfl⟩ :=
    List.exists_cons_of_length_eq_add_one (Nat.succ.inj (Nat.succ.inj (Nat.succ.inj h)))
  exact ⟨b0, b1, b2, b3, bytes, rfl, Nat.succ.inj (Nat.succ.inj (Nat.succ.inj (Nat.succ.inj h)))⟩

/-! ## The vector classes -/

/-- What a vector class reads from an image, in an object with anything in it. -/
theorem vectorDeserialize_image (obj : VectorField)
    (d a0 a1 a2 a3 b0 b1 b2 b3 c0 c1 c2 c3 : UInt8) :
    vectorDeserialize .afterHeader obj
        (.ofList [14, d, a0, a1, a2, a3, b0, b1, b2, b3, c0, c1, c2, c3]) 14 =
      some (14,
        ⟨⟨14, d⟩, bigEndian a0 a1 a2 a3, bigEndian b0 b1 b2 b3, bigEndian c0 c1 c2 c3⟩) := by
  simp [vectorDeserialize, deserializeHeader, VectorLayout.afterHeader, minMipFieldHeaderSize,
    sizeofFloat32, fieldDescriptorOffset, fieldLengthOffset, Buf.ofList, getFloat32,
    hostWord_eq_bigEndian]

/-- What a vector class writes of an object with the length of an image. -/
theorem vectorSerialize_image {buf : List UInt8} (hbuf : buf.length = 14) (d : UInt8)
    (x y z : UInt32) :
    vectorSerialize .afterHeader ⟨⟨14, d⟩, x, y, z⟩ buf 0 14 =
      some (14, [14, d, hostByte x 3, hostByte x 2, hostByte x 1, hostByte x 0, hostByte y 3,
        hostByte y 2, hostByte y 1, hostByte y 0, hostByte z 3, hostByte z 2, hostByte z 1,
        hostByte z 0]) := by
  obtain ⟨o0, o1, o2, o3, rest, rfl, h10⟩ := exists_four (show buf.length = 4 + 10 from hbuf)
  obtain ⟨p0, p1, p2, p3, rest, rfl, h6⟩ := exists_four (show rest.length = 4 + 6 from h10)
  obtain ⟨q0, q1, q2, q3, rest, rfl, h2⟩ := exists_four (show rest.length = 4 + 2 from h6)
  obtain ⟨r0, r1, rfl⟩ := List.length_eq_two.mp h2
  simp [vectorSerialize, serializeHeader, VectorLayout.afterHeader, minMipFieldHeaderSize,
    sizeofFloat32, fieldDescriptorOffset, fieldLengthOffset, putFloat32, poke]

/-- The vector classes write what they have read. -/
theorem vector_reencodes {d : UInt8} {data : List UInt8} (hdata : data.length = 12)
    (obj : VectorField) {buf : List UInt8} (hbuf : buf.length = 14) :
    ∃ obj', vectorDeserialize .afterHeader obj (.ofList (14 :: d :: data)) 14 = some (14, obj') ∧
      vectorSerialize .afterHeader obj' buf 0 14 = some (14, 14 :: d :: data) := by
  obtain ⟨a0, a1, a2, a3, rest, rfl, h8⟩ := exists_four (show data.length = 4 + 8 from hdata)
  obtain ⟨b0, b1, b2, b3, rest, rfl, h4⟩ := exists_four (show rest.length = 4 + 4 from h8)
  obtain ⟨c0, c1, c2, c3, rest, rfl, h0⟩ := exists_four (show rest.length = 4 + 0 from h4)
  obtain rfl := List.eq_nil_of_length_eq_zero h0
  refine ⟨_, vectorDeserialize_image obj d a0 a1 a2 a3 b0 b1 b2 b3 c0 c1 c2 c3, ?_⟩
  obtain ⟨ha0, ha1, ha2, ha3⟩ := hostByte_bigEndian a0 a1 a2 a3
  obtain ⟨hb0, hb1, hb2, hb3⟩ := hostByte_bigEndian b0 b1 b2 b3
  obtain ⟨hc0, hc1, hc2, hc3⟩ := hostByte_bigEndian c0 c1 c2 c3
  rw [vectorSerialize_image hbuf, ha0, ha1, ha2, ha3, hb0, hb1, hb2, hb3, hc0, hc1, hc2, hc3]

/-! ## `InternalTimestamp` -/

/-- What is read from an image, in an object with anything in it. -/
theorem InternalTimestamp.deserialize_image (obj : InternalTimestamp) (d b0 b1 b2 b3 : UInt8) :
    obj.deserialize (.ofList [6, d, b0, b1, b2, b3]) 6 =
      some (6, ⟨⟨6, d⟩, bigEndian b0 b1 b2 b3⟩) := by
  simp [deserialize, deserializeHeader, timestampOffset, staticSize, minMipFieldHeaderSize,
    fieldDescriptorOffset, fieldLengthOffset, Buf.ofList, getUInt32, bigEndian]

/-- What is written of an object with the length of an image. -/
theorem InternalTimestamp.serialize_image {buf : List UInt8} (hbuf : buf.length = 6) (d : UInt8)
    (timestamp : UInt32) :
    InternalTimestamp.serialize ⟨⟨6, d⟩, timestamp⟩ buf 0 6 =
      some (6, [6, d, hostByte (toFloat32 timestamp) 3, hostByte (toFloat32 timestamp) 2,
        hostByte (toFloat32 timestamp) 1, hostByte (toFloat32 timestamp) 0]) := by
  obtain ⟨o0, o1, o2, o3, rest, rfl, hrest⟩ := exists_four (show buf.length = 4 + 2 from hbuf)
  obtain ⟨r0, r1, rfl⟩ := List.length_eq_two.mp hrest
  simp [serialize, serializeHeader, timestampOffset, staticSize, minMipFieldHeaderSize,
    fieldDescriptorOffset, fieldLengthOffset, putFloat32, poke]

/-- A number below `2 ^ 32` is the pattern of its own conversion to a float when it is zero, and
once between `2 ^ 30` and `2 ^ 31`. -/
theorem ofNat_eq_self_iff {n : ℕ} (hn : n < 2 ^ 32) :
    Binary32.ofNat n = n ↔ n = 0 ∨ n = 0x4e9d3a75 := by
  constructor
  · intro hself
    by_cases h0 : n = 0
    · exact .inl h0
    · right
      obtain ⟨hlow, hhigh⟩ := Binary32.ofNat_bounds h0
      rw [hself] at hlow hhigh
      -- The patterns of all floats from 1 on are greater than `2 ^ 29`, and less than `2 ^ 31`.
      have hlog : Nat.log 2 n = 30 := by
        have hlog29 : 29 ≤ Nat.log 2 n := Nat.le_log_of_pow_le (by norm_num) (by omega)
        have hlog32 : Nat.log 2 n < 32 := Nat.log_lt_of_lt_pow h0 hn
        have hpow := Nat.pow_log_le_self 2 h0
        have hpow' := Nat.lt_pow_succ_log_self (by norm_num : 1 < 2) n
        generalize Nat.log 2 n = e at *
        obtain rfl | rfl | rfl : e = 29 ∨ e = 30 ∨ e = 31 := by omega
        · omega
        · rfl
        · omega
      have hpattern := Binary32.ofNat_of_log h0 (show Nat.log 2 n = 24 + 6 from hlog)
      have hround := Binary32.divNearest_spec n (show 0 < 2 ^ (6 + 1) by norm_num)
      omega
  · rintro (rfl | rfl)
    · rfl
    · have hlog : Nat.log 2 0x4e9d3a75 = 24 + 6 :=
        (Nat.log_eq_iff (.inl (by norm_num))).mpr ⟨by norm_num, by norm_num⟩
      rw [Binary32.ofNat_of_log (by norm_num) hlog]
      rfl

/-- The time stamps that are the patterns of their own conversions to floats. -/
theorem InternalTimestamp.toFloat32_eq_self_iff (n : UInt32) :
    toFloat32 n = n ↔ n = 0 ∨ n = 0x4e9d3a75 := by
  have hn := n.toNat_lt
  have hfits : Binary32.ofNat n.toNat < 2 ^ 32 := by
    by_cases h0 : n.toNat = 0
    · rw [h0]
      decide
    · have hlog := Nat.log_lt_of_lt_pow h0 hn
      have hbounds := (Binary32.ofNat_bounds h0).2
      omega
  rw [← UInt32.toNat_inj, ← UInt32.toNat_inj, ← UInt32.toNat_inj, toFloat32,
    UInt32.toNat_ofNat_of_lt' hfits]
  exact ofNat_eq_self_iff hn

/-- An image is written again when its time stamp is the pattern of its own conversion. -/
theorem InternalTimestamp.reencodes_iff (d b0 b1 b2 b3 : UInt8) :
    DataFieldClass.internalTimestamp.Reencodes ⟨d, [b0, b1, b2, b3], rfl⟩ ↔
      toFloat32 (bigEndian b0 b1 b2 b3) = bigEndian b0 b1 b2 b3 := by
  have hread : ∀ obj : InternalTimestamp,
      obj.deserialize (.ofList [6, d, b0, b1, b2, b3]) 6 = some (6, ⟨⟨6, d⟩, _⟩) :=
    fun obj => deserialize_image obj d b0 b1 b2 b3
  -- What is written are the bytes of the conversion.
  have hwritten := bigEndian_hostByte (toFloat32 (bigEndian b0 b1 b2 b3))
  constructor
  · intro h
    obtain ⟨obj', hobj, hbytes⟩ := h ⟨.new, 0⟩ [0, 0, 0, 0, 0, 0] rfl
    obtain rfl := (Prod.mk.inj (Option.some.inj ((hread ⟨.new, 0⟩).symm.trans hobj))).2
    have hserialize := serialize_image (show List.length [0, 0, 0, 0, 0, 0] = 6 from rfl) d
      (bigEndian b0 b1 b2 b3)
    have hsame := (Prod.mk.inj (Option.some.inj (hserialize.symm.trans hbytes))).2
    obtain ⟨h3, h2, h1, h0⟩ : _ ∧ _ ∧ _ ∧ _ := by
      simpa [DataFieldClass.Image.bytes] using (List.cons.inj hsame).2
    rw [← hwritten, h3, h2, h1, h0]
  · intro hself obj buf hbuf
    refine ⟨_, hread obj, ?_⟩
    obtain ⟨h3, h2, h1, h0⟩ := hostByte_bigEndian b0 b1 b2 b3
    have hserialize := serialize_image hbuf d (bigEndian b0 b1 b2 b3)
    rw [hself, h3, h2, h1, h0] at hserialize
    exact hserialize

/-! ## All classes -/

/-- The data of an image that is written again: all data but that of most time stamps. -/
def KeepsData (cls : DataFieldClass) (image : cls.Image) : Prop :=
  cls = .internalTimestamp → image.data = [0, 0, 0, 0] ∨ image.data = [0x4e, 0x9d, 0x3a, 0x75]

/-- Which images of the data fields are written again from what is read of them. -/
theorem reencodes_iff_keepsData (cls : DataFieldClass) (image : cls.Image) :
    cls.Reencodes image ↔ KeepsData cls image := by
  obtain ⟨d, data, hdata⟩ := image
  unfold KeepsData
  have hlen : data.length = cls.staticSize - 2 := Nat.eq_sub_of_add_eq' hdata
  cases cls with
  | vector cls =>
    refine iff_of_true (fun obj buf hbuf => ?_) nofun
    have hdata' : data.length = 12 := by cases cls <;> exact hlen
    have hbuf' : buf.length = 14 := by cases cls <;> exact hbuf
    cases cls <;> exact vector_reencodes hdata' obj hbuf'
  | rawAccelerometerVector =>
    exact iff_of_true (fun obj buf hbuf => vector_reencodes hlen obj hbuf) nofun
  | deltaThetaVector =>
    exact iff_of_true (fun obj buf hbuf => vector_reencodes hlen obj hbuf) nofun
  | internalTimestamp =>
    obtain ⟨b0, b1, b2, b3, rest, rfl, h0⟩ := exists_four (show data.length = 4 + 0 from hlen)
    obtain rfl := List.eq_nil_of_length_eq_zero h0
    have hzero : bigEndian b0 b1 b2 b3 = 0 ↔ [b0, b1, b2, b3] = [0, 0, 0, 0] := by
      rw [show (0 : UInt32) = bigEndian 0 0 0 0 from rfl, bigEndian_inj]
      simp
    have hother : bigEndian b0 b1 b2 b3 = 0x4e9d3a75 ↔
        [b0, b1, b2, b3] = [0x4e, 0x9d, 0x3a, 0x75] := by
      rw [show (0x4e9d3a75 : UInt32) = bigEndian 0x4e 0x9d 0x3a 0x75 from rfl, bigEndian_inj]
      simp
    rw [InternalTimestamp.reencodes_iff, InternalTimestamp.toFloat32_eq_self_iff, hzero, hother]
    exact ⟨fun h _ => h, fun h => h rfl⟩

/-- The time stamp 1 is written as the float `1.0`. -/
theorem timestamp_one_lost :
    ¬ DataFieldClass.internalTimestamp.Reencodes ⟨0x12, [0, 0, 0, 1], rfl⟩ := by
  rw [InternalTimestamp.reencodes_iff, InternalTimestamp.toFloat32_eq_self_iff]
  decide

end Guillemot.Imu
