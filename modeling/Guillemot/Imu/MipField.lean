import Guillemot.Imu.BufferUtils

/-!
# The fields of a MIP packet

`MipField.cpp` and the classes under `DataFields/` that the package builds: the header that every
field starts with (`FieldHeader`), the vector classes, and `deserializeToField`, which chooses a
class by the descriptor byte. The four vector classes differ in the names of their members and
constants only, so each is an instance of one pair of functions (`vectorSerialize`,
`vectorDeserialize`) at its own layout.

`deserializeToField_of_readable` says what is read when all that is read can be read, in terms of
`advance` and `decoded`; `deserializeToField_of_unreadable_header` and
`deserializeToField_of_unreadable_floats` are the two ways in which it cannot.
-/

namespace Guillemot.Imu

/-! ## Constants of `MipField` and `DataField` -/

/-- `MipField::FIELD_LENGTH_OFFSET`. -/
def fieldLengthOffset : ℕ := 0

/-- `MipField::FIELD_DESCRIPTOR_OFFSET`. -/
def fieldDescriptorOffset : ℕ := 1

/-- `MipField::MIN_MIP_FIELD_HEADER_SIZE`. -/
def minMipFieldHeaderSize : ℕ := 2

/-- `sizeof(Float32)`. -/
def sizeofFloat32 : ℕ := 4

/-- The members of `DataField::DataFieldSet` that the decoder and `main` single out. -/
def dataFieldScaledAccelerometerVectorSet : UInt8 := 0x4

@[inherit_doc dataFieldScaledAccelerometerVectorSet]
def dataFieldScaledGyroVectorSet : UInt8 := 0x5

@[inherit_doc dataFieldScaledAccelerometerVectorSet]
def dataFieldDeltaVelocityVectorSet : UInt8 := 0x8

@[inherit_doc dataFieldScaledAccelerometerVectorSet]
def dataFieldEulerAnglesSet : UInt8 := 0xc

/-! ## Headers -/

/-- The members of `MipField`. -/
structure FieldHeader where
  /-- `m_fieldLength`. -/
  fieldLength : UInt8
  /-- `m_fieldDescriptor`. -/
  fieldDescriptor : UInt8
deriving DecidableEq, Repr

/-- The constructor of `MipField`. -/
def FieldHeader.new : FieldHeader := ⟨0, 0⟩

/-- `MipField::serializeHeader`, at index `pos` of `buf`. -/
def serializeHeader (hdr : FieldHeader) (buf : List UInt8) (pos : ℕ) (size : UInt8) :
    Option (UInt8 × List UInt8) :=
  if minMipFieldHeaderSize ≤ size.toNat then do
    let buf ← poke buf (pos + fieldLengthOffset) hdr.fieldLength
    let buf ← poke buf (pos + fieldDescriptorOffset) hdr.fieldDescriptor
    return (UInt8.ofNat minMipFieldHeaderSize, buf)
  else return (0, buf)

/-- `MipField::deserializeHeader`. -/
def deserializeHeader (hdr : FieldHeader) (pBuf : Buf) (size : UInt8) :
    Option (UInt8 × FieldHeader) :=
  if minMipFieldHeaderSize ≤ size.toNat then do
    let descriptor ← pBuf fieldDescriptorOffset
    let length ← pBuf fieldLengthOffset
    return (length, ⟨length, descriptor⟩)
  else return (0, hdr)

/-! ## Vector classes -/

/-- The `DataField` subclasses that `deserializeToField` builds. -/
inductive VectorClass where
  | scaledAccelerometerVector
  | scaledGyroVector
  | eulerAngles
  | deltaVelocityVector
deriving DecidableEq, Repr

/-- An object of a vector class: the members of `MipField`, and the three floats `m_x`, `m_y` and
`m_z`, which `EulerAngles` calls `m_yaw`, `m_pitch` and `m_roll`. -/
structure VectorField where
  /-- The members of `MipField`. -/
  header : FieldHeader
  /-- `m_x` or `m_yaw`. -/
  x : UInt32
  /-- `m_y` or `m_pitch`. -/
  y : UInt32
  /-- `m_z` or `m_roll`. -/
  z : UInt32
deriving DecidableEq, Repr

/-- The constructor of a vector class, with `0.0` in each float. -/
def VectorField.new : VectorField := ⟨FieldHeader.new, 0, 0, 0⟩

/-- The offsets that a vector class declares in its enumeration. -/
structure VectorLayout where
  /-- `X_OFFSET` or `YAW_OFFSET`. -/
  xOffset : ℕ
  /-- `Y_OFFSET` or `PITCH_OFFSET`. -/
  yOffset : ℕ
  /-- `Z_OFFSET` or `ROLL_OFFSET`. -/
  zOffset : ℕ
  /-- `STATIC_SIZE`. -/
  staticSize : ℕ
deriving DecidableEq, Repr

/-- The offsets of three consecutive floats after the header. -/
def VectorLayout.afterHeader : VectorLayout where
  xOffset := minMipFieldHeaderSize
  yOffset := minMipFieldHeaderSize + sizeofFloat32
  zOffset := minMipFieldHeaderSize + sizeofFloat32 + sizeofFloat32
  staticSize := minMipFieldHeaderSize + sizeofFloat32 + sizeofFloat32 + sizeofFloat32

/-- `serialize` of a vector class with the layout `lay`. -/
def vectorSerialize (lay : VectorLayout) (obj : VectorField) (buf : List UInt8) (pos : ℕ)
    (size : UInt8) : Option (UInt8 × List UInt8) :=
  if lay.staticSize ≤ size.toNat then do
    let (_, buf) ← serializeHeader obj.header buf pos size
    let buf ← putFloat32 buf (pos + lay.xOffset) obj.x
    let buf ← putFloat32 buf (pos + lay.yOffset) obj.y
    let buf ← putFloat32 buf (pos + lay.zOffset) obj.z
    return (obj.header.fieldLength, buf)
  else return (0, buf)

/-- `deserialize` of a vector class with the layout `lay`. -/
def vectorDeserialize (lay : VectorLayout) (obj : VectorField) (pBuf : Buf) (size : UInt8) :
    Option (UInt8 × VectorField) :=
  if minMipFieldHeaderSize ≤ size.toNat then do
    let (_, header) ← deserializeHeader obj.header pBuf size
    if header.fieldLength ≤ size ∧ header.fieldLength.toNat = lay.staticSize then do
      let x ← getFloat32 (pBuf.offset lay.xOffset)
      let y ← getFloat32 (pBuf.offset lay.yOffset)
      let z ← getFloat32 (pBuf.offset lay.zOffset)
      return (header.fieldLength, ⟨header, x, y, z⟩)
    else return (0, { obj with header })
  else return (0, obj)

/-- The enumeration of `ScaledAccelerometerVector`. -/
def ScaledAccelerometerVector.layout : VectorLayout := .afterHeader

/-- The enumeration of `ScaledGyroVector`. -/
def ScaledGyroVector.layout : VectorLayout := .afterHeader

/-- The enumeration of `EulerAngles`. -/
def EulerAngles.layout : VectorLayout := .afterHeader

/-- The enumeration of `DeltaVelocityVector`. -/
def DeltaVelocityVector.layout : VectorLayout := .afterHeader

/-- `ScaledAccelerometerVector::serialize`. -/
def ScaledAccelerometerVector.serialize := vectorSerialize ScaledAccelerometerVector.layout

/-- `ScaledGyroVector::serialize`. -/
def ScaledGyroVector.serialize := vectorSerialize ScaledGyroVector.layout

/-- `EulerAngles::serialize`. -/
def EulerAngles.serialize := vectorSerialize EulerAngles.layout

/-- `DeltaVelocityVector::serialize`. -/
def DeltaVelocityVector.serialize := vectorSerialize DeltaVelocityVector.layout

/-- `ScaledAccelerometerVector::deserialize`. -/
def ScaledAccelerometerVector.deserialize := vectorDeserialize ScaledAccelerometerVector.layout

/-- `ScaledGyroVector::deserialize`. -/
def ScaledGyroVector.deserialize := vectorDeserialize ScaledGyroVector.layout

/-- `EulerAngles::deserialize`. -/
def EulerAngles.deserialize := vectorDeserialize EulerAngles.layout

/-- `DeltaVelocityVector::deserialize`. -/
def DeltaVelocityVector.deserialize := vectorDeserialize DeltaVelocityVector.layout

/-- The virtual `serialize` of a vector class. -/
def VectorClass.serialize : VectorClass → VectorField → List UInt8 → ℕ → UInt8 →
    Option (UInt8 × List UInt8)
  | scaledAccelerometerVector => ScaledAccelerometerVector.serialize
  | scaledGyroVector => ScaledGyroVector.serialize
  | eulerAngles => EulerAngles.serialize
  | deltaVelocityVector => DeltaVelocityVector.serialize

/-- The `deserialize` of a vector class. -/
def VectorClass.deserialize : VectorClass → VectorField → Buf → UInt8 →
    Option (UInt8 × VectorField)
  | scaledAccelerometerVector => ScaledAccelerometerVector.deserialize
  | scaledGyroVector => ScaledGyroVector.deserialize
  | eulerAngles => EulerAngles.deserialize
  | deltaVelocityVector => DeltaVelocityVector.deserialize

/-- The vector classes serialize alike. -/
theorem VectorClass.serialize_eq (cls : VectorClass) :
    cls.serialize = vectorSerialize .afterHeader := by
  cases cls <;> rfl

/-- The vector classes deserialize alike. -/
theorem VectorClass.deserialize_eq (cls : VectorClass) :
    cls.deserialize = vectorDeserialize .afterHeader := by
  cases cls <;> rfl

/-! ## Fields -/

/-- An object that a `MipField*` of the package points to: a plain `DataField`, or one of the vector
classes. -/
inductive MipField where
  | dataField (header : FieldHeader)
  | vector (cls : VectorClass) (obj : VectorField)
deriving DecidableEq, Repr

namespace MipField

/-- The members inherited from `MipField`. -/
def header : MipField → FieldHeader
  | dataField header => header
  | vector _ obj => obj.header

/-- `MipField::getFieldLength`. -/
def getFieldLength (field : MipField) : UInt8 := field.header.fieldLength

/-- `MipField::getFieldDescriptor`. -/
def getFieldDescriptor (field : MipField) : UInt8 := field.header.fieldDescriptor

/-- `MipField::setFieldDescriptor`. -/
def setFieldDescriptor (descriptor : UInt8) : MipField → MipField
  | dataField header => dataField { header with fieldDescriptor := descriptor }
  | vector cls obj => vector cls { obj with header.fieldDescriptor := descriptor }

/-- The virtual `serialize`. `DataField::serialize` writes the header alone. -/
def serialize (field : MipField) (buf : List UInt8) (pos : ℕ) (size : UInt8) :
    Option (UInt8 × List UInt8) :=
  match field with
  | dataField header => serializeHeader header buf pos size
  | vector cls obj => cls.serialize obj buf pos size

end MipField

/-- The `switch` of `deserializeToField` on the descriptor byte: the class that it builds, or `none`
for the plain `DataField` of the other cases. -/
def VectorClass.ofDescriptor (descriptor : UInt8) : Option VectorClass :=
  if descriptor = dataFieldScaledAccelerometerVectorSet then some scaledAccelerometerVector
  else if descriptor = dataFieldScaledGyroVectorSet then some scaledGyroVector
  else if descriptor = dataFieldEulerAnglesSet then some eulerAngles
  else if descriptor = dataFieldDeltaVelocityVectorSet then some deltaVelocityVector
  else none

/-- `DataField::deserializeToField`: the value returned, and what it leaves in `rpField`, which the
caller has set to null. -/
def deserializeToField (pBuf : Buf) (size : UInt8) : Option (UInt8 × Option MipField) :=
  if minMipFieldHeaderSize ≤ size.toNat then do
    match VectorClass.ofDescriptor (← pBuf fieldDescriptorOffset) with
    | some cls =>
      let (ret, obj) ← cls.deserialize .new pBuf size
      return (ret, some (.vector cls obj))
    | none =>
      let (ret, header) ← deserializeHeader .new pBuf size
      return (ret, some (.dataField header))
  else return (0, none)

/-! ## What `deserializeToField` reads -/

/-- The descriptors of the vector classes that `deserializeToField` builds. -/
def isVectorDescriptor (descriptor : UInt8) : Bool := (VectorClass.ofDescriptor descriptor).isSome

/-- The static size of the vector classes, as the length byte of a field. -/
def vectorLength : UInt8 := 14

/-- The floats of a vector field are read: its length byte is the static size, and the size passed
to the decoder leaves room for it. -/
def HoldsFloats (m : ℕ → UInt8) (size : UInt8) : Prop := m 0 = vectorLength ∧ vectorLength ≤ size

instance (m : ℕ → UInt8) (size : UInt8) : Decidable (HoldsFloats m size) := by
  unfold HoldsFloats
  infer_instance

/-- The value that `deserializeToField` returns for the field at the start of `m`. -/
def advance (m : ℕ → UInt8) (size : UInt8) : UInt8 :=
  if isVectorDescriptor (m 1) then (if HoldsFloats m size then vectorLength else 0) else m 0

/-- The object of a vector class that is read from the start of `m`. -/
def decodedVector (m : ℕ → UInt8) (size : UInt8) : VectorField :=
  if HoldsFloats m size then
    { header := ⟨m 0, m 1⟩
      x := bigEndian (m 2) (m 3) (m 4) (m 5)
      y := bigEndian (m 6) (m 7) (m 8) (m 9)
      z := bigEndian (m 10) (m 11) (m 12) (m 13) }
  else { VectorField.new with header := ⟨m 0, m 1⟩ }

/-- The field that `deserializeToField` builds from the start of `m`. -/
def decoded (m : ℕ → UInt8) (size : UInt8) : MipField :=
  match VectorClass.ofDescriptor (m 1) with
  | some cls => .vector cls (decodedVector m size)
  | none => .dataField ⟨m 0, m 1⟩

/-- A float whose bytes can be read. -/
theorem getFloat32_of_readable {pBuf : Buf} {m : ℕ → UInt8} {k : ℕ}
    (h : ∀ i, k ≤ i → i < k + 4 → pBuf i = some (m i)) :
    getFloat32 (pBuf.offset k) = some (bigEndian (m k) (m (k + 1)) (m (k + 2)) (m (k + 3))) := by
  have h0 := h k (by omega) (by omega)
  have h1 := h (k + 1) (by omega) (by omega)
  have h2 := h (k + 2) (by omega) (by omega)
  have h3 := h (k + 3) (by omega) (by omega)
  simp [getFloat32, h0, h1, h2, h3, hostWord_eq_bigEndian]

/-- A vector field whose header can be read, and its floats too when they are read. -/
theorem vectorDeserialize_of_readable {pBuf : Buf} {m : ℕ → UInt8} {size : UInt8}
    (hsize : 2 ≤ size.toNat) (h0 : pBuf 0 = some (m 0)) (h1 : pBuf 1 = some (m 1))
    (hdata : HoldsFloats m size → ∀ i, i < 14 → pBuf i = some (m i)) :
    vectorDeserialize .afterHeader .new pBuf size =
      some (if HoldsFloats m size then vectorLength else 0, decodedVector m size) := by
  have hlen : (m 0).toNat = 14 ↔ m 0 = vectorLength := by
    rw [← UInt8.toNat_inj]
    rfl
  -- The test of the source is `HoldsFloats`.
  have hholds : (m 0 ≤ size ∧ (m 0).toNat = VectorLayout.afterHeader.staticSize) ↔
      HoldsFloats m size := by
    have hstatic : VectorLayout.afterHeader.staticSize = 14 := rfl
    rw [hstatic, hlen, HoldsFloats]
    constructor
    · rintro ⟨hle, heq⟩
      exact ⟨heq, heq ▸ hle⟩
    · rintro ⟨heq, hle⟩
      exact ⟨heq ▸ hle, heq⟩
  by_cases hf : HoldsFloats m size
  · -- The three floats are the twelve bytes behind the header.
    have hx := getFloat32_of_readable (k := VectorLayout.afterHeader.xOffset) fun i _ hi =>
      hdata hf i (by simp [VectorLayout.afterHeader, minMipFieldHeaderSize] at hi; omega)
    have hy := getFloat32_of_readable (k := VectorLayout.afterHeader.yOffset) fun i _ hi =>
      hdata hf i (by
        simp [VectorLayout.afterHeader, minMipFieldHeaderSize, sizeofFloat32] at hi; omega)
    have hz := getFloat32_of_readable (k := VectorLayout.afterHeader.zOffset) fun i _ hi =>
      hdata hf i (by
        simp [VectorLayout.afterHeader, minMipFieldHeaderSize, sizeofFloat32] at hi; omega)
    have hret : m 0 = vectorLength := hf.1
    simp only [vectorDeserialize, deserializeHeader, minMipFieldHeaderSize, hsize, if_true,
      fieldDescriptorOffset, fieldLengthOffset, h0, h1, Option.bind_eq_bind, Option.bind_some,
      Option.pure_def, hholds, hf, hx, hy, hz, decodedVector]
    simp [hret, VectorLayout.afterHeader, minMipFieldHeaderSize, sizeofFloat32]
  · simp only [vectorDeserialize, deserializeHeader, minMipFieldHeaderSize, hsize, if_true,
      fieldDescriptorOffset, fieldLengthOffset, h0, h1, Option.bind_eq_bind, Option.bind_some,
      Option.pure_def, hholds, hf, decodedVector, if_false]

/-- `deserializeToField` when what it reads can be read: the header, and the floats of a vector
field that holds them. -/
theorem deserializeToField_of_readable {pBuf : Buf} {m : ℕ → UInt8} {size : UInt8}
    (hsize : 2 ≤ size.toNat) (h0 : pBuf 0 = some (m 0)) (h1 : pBuf 1 = some (m 1))
    (hdata : isVectorDescriptor (m 1) → HoldsFloats m size → ∀ i, i < 14 → pBuf i = some (m i)) :
    deserializeToField pBuf size = some (advance m size, some (decoded m size)) := by
  cases hcls : VectorClass.ofDescriptor (m 1) with
  | some cls =>
    have hvec : isVectorDescriptor (m 1) = true := by simp [isVectorDescriptor, hcls]
    have hobj := vectorDeserialize_of_readable hsize h0 h1 (hdata hvec)
    simp [deserializeToField, minMipFieldHeaderSize, hsize, fieldDescriptorOffset, h1, hcls,
      VectorClass.deserialize_eq, hobj, advance, hvec, decoded]
  | none =>
    have hvec : isVectorDescriptor (m 1) = false := by simp [isVectorDescriptor, hcls]
    simp [deserializeToField, deserializeHeader, minMipFieldHeaderSize, hsize,
      fieldDescriptorOffset, fieldLengthOffset, h0, h1, hcls, advance, hvec, decoded]

/-- Below the size of a header, `deserializeToField` reads nothing and builds nothing. -/
theorem deserializeToField_of_lt {pBuf : Buf} {size : UInt8} (hsize : size.toNat < 2) :
    deserializeToField pBuf size = some (0, none) := by
  simp [deserializeToField, minMipFieldHeaderSize, Nat.not_le.mpr hsize]

/-- `deserializeToField` when all memory can be read. -/
theorem deserializeToField_total {m : ℕ → UInt8} {size : UInt8} (hsize : 2 ≤ size.toNat) :
    deserializeToField (.total m) size = some (advance m size, some (decoded m size)) :=
  deserializeToField_of_readable hsize rfl rfl fun _ _ _ _ => rfl

/-- A descriptor byte that cannot be read. -/
theorem deserializeToField_of_unreadable_header {pBuf : Buf} {size : UInt8}
    (hsize : 2 ≤ size.toNat) (h1 : pBuf 1 = none) : deserializeToField pBuf size = none := by
  simp [deserializeToField, minMipFieldHeaderSize, hsize, fieldDescriptorOffset, h1]

/-- A vector field that holds its floats, the last byte of which cannot be read. -/
theorem deserializeToField_of_unreadable_floats {pBuf : Buf} {m : ℕ → UInt8} {size : UInt8}
    (h0 : pBuf 0 = some (m 0)) (h1 : pBuf 1 = some (m 1)) (hvec : isVectorDescriptor (m 1))
    (hf : HoldsFloats m size) (h13 : pBuf 13 = none) : deserializeToField pBuf size = none := by
  obtain ⟨hlen, hle⟩ := hf
  obtain ⟨cls, hcls⟩ := Option.isSome_iff_exists.mp hvec
  have hsize : 2 ≤ size.toNat := by
    have : vectorLength.toNat ≤ size.toNat := UInt8.le_iff_toNat_le.mp hle
    simp [vectorLength] at this
    omega
  have hlen' : (m 0).toNat = 14 := by rw [hlen]; rfl
  have hle' : m 0 ≤ size := hlen ▸ hle
  -- The byte that cannot be read is the last one of the third float.
  have hz : getFloat32 (pBuf.offset VectorLayout.afterHeader.zOffset) = none := by
    simp [getFloat32, VectorLayout.afterHeader, minMipFieldHeaderSize, sizeofFloat32, h13]
  have hstatic : VectorLayout.afterHeader.staticSize = 14 := rfl
  have hobj : vectorDeserialize .afterHeader .new pBuf size = none := by
    simp only [vectorDeserialize, deserializeHeader, minMipFieldHeaderSize, hsize, if_true,
      fieldDescriptorOffset, fieldLengthOffset, h0, h1, Option.bind_eq_bind, Option.bind_some,
      Option.pure_def, hstatic, hlen', hle', true_and, hz, Option.bind_none, Option.bind_fun_none]
  simp [deserializeToField, minMipFieldHeaderSize, hsize, fieldDescriptorOffset, h1, hcls,
    VectorClass.deserialize_eq, hobj]

end Guillemot.Imu
