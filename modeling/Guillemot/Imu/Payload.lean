import Guillemot.Imu.FieldWalk

/-!
# Decoding a well-formed payload

A `WireField` is a field as the IMU sends it: a length byte that counts the whole field, a
descriptor, and data of the vector classes' size when the descriptor is one of theirs. A `Payload`
is a list of such fields of at most 255 bytes.

`deserialize_payload` shows that `MipFieldList::deserialize` turns the bytes of a payload into its
fields, and ends at its last byte. The decoder's position before each field is the length of what
came before it, which the loop lemma `whileLoop_payload` carries along the list.
-/

namespace Guillemot.Imu

/-- A field of a well-formed payload. -/
structure WireField where
  /-- The descriptor byte. -/
  descriptor : UInt8
  /-- The bytes after the descriptor. -/
  data : List UInt8
  /-- The length of the whole field is a byte. -/
  length_lt : data.length + 2 < 256
  /-- The fields of the vector classes have their static size. -/
  vector_length : isVectorDescriptor descriptor → data.length + 2 = 14

namespace WireField

/-- The length byte, which counts the whole field. -/
def lengthByte (f : WireField) : UInt8 := UInt8.ofNat (f.data.length + 2)

/-- The field on the wire. -/
def bytes (f : WireField) : List UInt8 := f.lengthByte :: f.descriptor :: f.data

/-- The big-endian float at index `k` of the data. -/
def floatAt (f : WireField) (k : ℕ) : UInt32 :=
  bigEndian (f.data.getD k 0) (f.data.getD (k + 1) 0) (f.data.getD (k + 2) 0)
    (f.data.getD (k + 3) 0)

/-- The field as an object: its length and descriptor and, for a vector class, its three floats. -/
def object (f : WireField) : MipField :=
  match VectorClass.ofDescriptor f.descriptor with
  | some cls => .vector cls ⟨⟨f.lengthByte, f.descriptor⟩, f.floatAt 0, f.floatAt 4, f.floatAt 8⟩
  | none => .dataField ⟨f.lengthByte, f.descriptor⟩

@[simp]
theorem toNat_lengthByte (f : WireField) : f.lengthByte.toNat = f.data.length + 2 := by
  have := f.length_lt
  simp only [lengthByte, UInt8.toNat_ofNat']
  omega

@[simp]
theorem length_bytes (f : WireField) : f.bytes.length = f.data.length + 2 := rfl

/-- The length byte of a vector field is the static size of its class. -/
theorem lengthByte_eq (f : WireField) (h : isVectorDescriptor f.descriptor) :
    f.lengthByte = vectorLength := by
  unfold lengthByte
  rw [f.vector_length h]
  rfl

end WireField

/-- The bytes of a list of fields. -/
def payloadBytes (fields : List WireField) : List UInt8 := fields.flatMap WireField.bytes

/-- A payload of an IMU frame: fields of at most 255 bytes altogether. -/
structure Payload where
  /-- The fields. -/
  fields : List WireField
  /-- The length of the payload is a byte. -/
  length_le : (payloadBytes fields).length ≤ 255

/-- The bytes of a payload. -/
def Payload.bytes (p : Payload) : List UInt8 := payloadBytes p.fields

@[simp]
theorem payloadBytes_append (xs ys : List WireField) :
    payloadBytes (xs ++ ys) = payloadBytes xs ++ payloadBytes ys := by
  simp [payloadBytes]

@[simp]
theorem payloadBytes_cons (f : WireField) (fs : List WireField) :
    payloadBytes (f :: fs) = f.bytes ++ payloadBytes fs := rfl

/-- The bytes of a field in the middle of a payload. -/
theorem getD_payloadBytes (pre post : List WireField) (f : WireField) {i : ℕ}
    (hi : i < f.bytes.length) :
    (payloadBytes (pre ++ f :: post)).getD ((payloadBytes pre).length + i) 0 =
      f.bytes.getD i 0 := by
  simp only [List.getD_eq_getElem?_getD, payloadBytes_append, payloadBytes_cons]
  rw [List.getElem?_append_right (by omega), Nat.add_sub_cancel_left,
    List.getElem?_append_left hi]

/-- The memory of a payload, as the decoder's rounds are stated for it. -/
def payloadMemory (fields : List WireField) (i : ℕ) : UInt8 := (payloadBytes fields).getD i 0

section Middle

variable (pre post : List WireField) (f : WireField)

/-- The bytes at the position of `f`. -/
theorem payloadMemory_middle {i : ℕ} (hi : i < f.bytes.length) :
    payloadMemory (pre ++ f :: post) ((payloadBytes pre).length + i) = f.bytes.getD i 0 :=
  getD_payloadBytes pre post f hi

/-- The length byte at the position of `f`. -/
theorem payloadMemory_length :
    payloadMemory (pre ++ f :: post) (payloadBytes pre).length = f.lengthByte :=
  payloadMemory_middle pre post f (i := 0) (by simp)

/-- The descriptor byte at the position of `f`. -/
theorem payloadMemory_descriptor :
    payloadMemory (pre ++ f :: post) ((payloadBytes pre).length + 1) = f.descriptor :=
  payloadMemory_middle pre post f (i := 1) (by simp)

/-- The data bytes at the position of `f`. -/
theorem payloadMemory_data {i : ℕ} (hi : i < f.data.length) :
    payloadMemory (pre ++ f :: post) ((payloadBytes pre).length + (i + 2)) = f.data.getD i 0 :=
  payloadMemory_middle pre post f (i := i + 2) (by simpa using hi)

/-- The payload reaches to the end of `f`. -/
theorem length_middle : (payloadBytes pre).length + (f.data.length + 2) ≤
    (payloadBytes (pre ++ f :: post)).length := by
  simp only [payloadBytes_append, payloadBytes_cons, List.length_append, WireField.length_bytes]
  omega

variable (hle : (payloadBytes (pre ++ f :: post)).length ≤ 255)

include hle in
/-- The size of a payload that holds a vector field leaves room for it as a byte. -/
theorem room_of_vector (hvec : isVectorDescriptor f.descriptor) :
    14 ≤ ((payloadBytes (pre ++ f :: post)).length : ℤ) % 256 := by
  have := length_middle pre post f
  have := f.vector_length hvec
  omega

include hle in
/-- The decoder gets past `f`. -/
theorem advances_middle : Advances (payloadMemory (pre ++ f :: post))
    (payloadBytes (pre ++ f :: post)).length (payloadBytes pre).length := by
  unfold Advances
  rw [payloadMemory_length, payloadMemory_descriptor]
  refine ⟨fun h => ?_, fun hvec => ⟨f.lengthByte_eq hvec, room_of_vector pre post f hle hvec⟩⟩
  have := f.toNat_lengthByte
  rw [h] at this
  simp at this

/-- What is read of `f` is in the payload. -/
theorem inBounds_middle : InBounds (payloadMemory (pre ++ f :: post))
    (payloadBytes (pre ++ f :: post)).length (payloadBytes pre).length := by
  have hlen := length_middle pre post f
  unfold InBounds
  rw [payloadMemory_descriptor]
  refine ⟨by omega, fun hvec _ _ => ?_⟩
  have := f.vector_length hvec
  omega

include hle in
/-- The field that is decoded at the position of `f` is `f` as an object. -/
theorem decoded_middle : decoded
    (fun i => payloadMemory (pre ++ f :: post) ((payloadBytes pre).length + i))
    (toUInt8 (payloadBytes (pre ++ f :: post)).length) = f.object := by
  have h0 : payloadMemory (pre ++ f :: post) ((payloadBytes pre).length + 0) = f.lengthByte :=
    payloadMemory_length pre post f
  have h1 := payloadMemory_descriptor pre post f
  cases hcls : VectorClass.ofDescriptor f.descriptor with
  | none => simp only [decoded, WireField.object, h1, hcls, h0]
  | some cls =>
    have hvec : isVectorDescriptor f.descriptor = true := by simp [isVectorDescriptor, hcls]
    have hfloats := (holdsFloats_iff (payloadMemory (pre ++ f :: post))
      (payloadBytes (pre ++ f :: post)).length (payloadBytes pre).length).mpr
      ⟨by rw [payloadMemory_length]; exact f.lengthByte_eq hvec, room_of_vector pre post f hle hvec⟩
    have hdata : ∀ i, i < 12 → payloadMemory (pre ++ f :: post)
        ((payloadBytes pre).length + (i + 2)) = f.data.getD i 0 := fun i hi =>
      payloadMemory_data pre post f (by have := f.vector_length hvec; omega)
    -- The data bytes at 0, 4 and 8 start the three floats.
    simp only [decoded, decodedVector, WireField.object, WireField.floatAt, h1, hcls,
      if_pos hfloats, h0,
      hdata 0 (by omega), hdata 1 (by omega), hdata 2 (by omega), hdata 3 (by omega),
      hdata 4 (by omega), hdata 5 (by omega), hdata 6 (by omega), hdata 7 (by omega),
      hdata 8 (by omega), hdata 9 (by omega), hdata 10 (by omega), hdata 11 (by omega)]

end Middle

/-- The decoding loop over a payload, from the position of any of its fields: it adds the fields
from there on, one a round, and ends at the last byte. -/
theorem whileLoop_payload (pre post : List WireField)
    (hle : (payloadBytes (pre ++ post)).length ≤ 255) (k : ℕ) :
    Loop.whileLoop (decodingGuard (payloadBytes (pre ++ post)).length)
      (decodeBody descriptorSetImuData (.ofList (payloadBytes (pre ++ post)))
        (payloadBytes (pre ++ post)).length) (post.length + k)
      ⟨(payloadBytes pre).length, pre.map WireField.object⟩ =
    .done ⟨(payloadBytes (pre ++ post)).length, (pre ++ post).map WireField.object⟩ := by
  -- By induction on the fields to come; those before them give the position.
  induction post generalizing pre with
  | nil =>
    have hguard : decodingGuard (payloadBytes (pre ++ [])).length
        (⟨(payloadBytes pre).length, pre.map WireField.object⟩ : Decoding (List MipField)) =
        false := by
      rw [Bool.eq_false_iff]
      intro h
      have := (decodingGuard_iff.mp h).1
      simp at this
    rw [Loop.whileLoop_of_false hguard, List.append_nil]
  | cons f post ih =>
    have hlen := length_middle pre post f
    have hreads : ReadsFields descriptorSetImuData (payloadBytes (pre ++ f :: post)).length :=
      ⟨rfl, by omega⟩
    have hround : Loop.Round (decodingGuard (payloadBytes (pre ++ f :: post)).length)
        (decodeBody descriptorSetImuData (.ofList (payloadBytes (pre ++ f :: post)))
          (payloadBytes (pre ++ f :: post)).length)
        ⟨(payloadBytes pre).length, pre.map WireField.object⟩
        ⟨(payloadBytes (pre ++ [f])).length, (pre ++ [f]).map WireField.object⟩ := by
      refine ⟨decodingGuard_iff.mpr ⟨by simp only; omega, by omega⟩, ?_⟩
      -- The field is in bounds, so the round is the one on readable memory.
      rw [Buf.ofList_eq_upTo]
      refine (decodeBody_upTo hreads (payloadMemory (pre ++ f :: post))
        ⟨(payloadBytes pre).length, pre.map WireField.object⟩ (inBounds_middle pre post f)).trans ?_
      rw [decodeBody_total hreads, advance_of_advances (advances_middle pre post f hle),
        decoded_middle pre post f hle, payloadMemory_length, WireField.toNat_lengthByte]
      simp [payloadBytes]
    rw [show (f :: post).length + k = post.length + k + 1 by simp only [List.length_cons]; omega,
      Loop.whileLoop_of_round hround]
    have happ : pre ++ f :: post = (pre ++ [f]) ++ post := by simp
    rw [happ] at hle ⊢
    exact ih (pre ++ [f]) hle

/-- `deserialize(0x80, payload, size)` on a fresh list ends at the last byte of the payload, and the
list then holds exactly the fields of the payload, in order: each with its descriptor and length
and, for a vector class, its three floats. A round for each field is enough. -/
theorem deserialize_payload (p : Payload) (k : ℕ) :
    ∃ list, MipFieldList.new.deserialize descriptorSetImuData (.ofList p.bytes) p.bytes.length
        (p.fields.length + k) = .done ⟨p.bytes.length, list⟩ ∧
      list.iterate = some (p.fields.map fun f => some f.object) := by
  have hloop := whileLoop_payload [] p.fields p.length_le k
  have hrel := deserialize_related descriptorSetImuData (.ofList p.bytes) p.bytes.length
    (p.fields.length + k)
  have hdecode : decodeLoop descriptorSetImuData (.ofList p.bytes) p.bytes.length
      (p.fields.length + k) = .done ⟨p.bytes.length, p.fields.map WireField.object⟩ := hloop
  rw [hdecode] at hrel
  generalize hout : MipFieldList.new.deserialize descriptorSetImuData (.ofList p.bytes)
    p.bytes.length (p.fields.length + k) = out at hrel ⊢
  cases hrel with
  | @done s a h =>
    obtain ⟨pos, list⟩ := s
    obtain ⟨rfl, hrep⟩ := h
    refine ⟨list, rfl, ?_⟩
    rw [MipFieldList.iterate_eq hrep]
    simp

end Guillemot.Imu
