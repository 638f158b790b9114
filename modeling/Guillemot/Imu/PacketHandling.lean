import Guillemot.Imu.Receiver

/-!
# What `main` makes of a frame

The handling of a frame depends on the frame alone, although the decoder can read stale bytes of
`aBuf` behind it: whether it ends (`DecoderEnds`), and whether it publishes anything (`Publishes`).
`handlePacket_cases` is the statement of both. The checksum plays no part in it.
-/

namespace Guillemot.Imu

open Relation (ReflTransGen)

/-! ## The list that the decoder builds -/

section DecodedList

variable {m : ℕ → UInt8} {size : ℤ}

/-- The field that the decoder builds at `p`. -/
def fieldAt (m : ℕ → UInt8) (size : ℤ) (p : ℕ) : MipField :=
  decoded (fun i => m (p + i)) (toUInt8 size)

/-- A field has the descriptor byte that it was decoded from. -/
theorem getFieldDescriptor_fieldAt (p : ℕ) :
    (fieldAt m size p).getFieldDescriptor = m (p + 1) := by
  unfold fieldAt decoded
  split
  · simp only [MipField.getFieldDescriptor, MipField.header, decodedVector]
    split_ifs <;> rfl
  · rfl

/-- The list that the decoder ends with holds the fields of the walk, and no others. -/
theorem mem_list_iff {ds : UInt8} (h : ReadsFields ds size) (hsize : 2 ≤ size) {fuel : ℕ}
    {t : Decoding (List MipField)} (ht : decodeLoop ds (.total m) size fuel = .done t)
    (field : MipField) :
    field ∈ t.list ↔ ∃ p, FieldStart m size p ∧ (p : ℤ) < size ∧ field = fieldAt m size p := by
  have hreach := (Loop.done_iff.mp ⟨fuel, ht⟩).1
  constructor
  · -- Every round adds the field of the position that it starts at.
    have hwalk : ∀ s, ReflTransGen (Loop.Round (decodingGuard size) (decodeBody ds (.total m) size))
        ⟨0, []⟩ s → ∀ field ∈ s.list,
          ∃ p, FieldStart m size p ∧ (p : ℤ) < size ∧ field = fieldAt m size p := by
      intro s hs
      induction hs with
      | refl => simp
      | @tail s t hs hround ih =>
        obtain ⟨hguard, hbody⟩ := hround
        rw [decodeBody_total h] at hbody
        obtain rfl := Option.some.inj hbody
        intro field hfield
        rcases List.mem_append.mp hfield with hold | hnew
        · exact ih field hold
        · exact ⟨s.pos, fieldStart_of_reaches h hs, (decodingGuard_iff.mp hguard).1,
            List.mem_singleton.mp hnew⟩
    exact hwalk t hreach field
  · rintro ⟨p, hp, hlt, rfl⟩
    obtain ⟨fields, hs⟩ := reaches_of_fieldStart h hsize hp
    have hround : Loop.Round (decodingGuard size) (decodeBody ds (.total m) size) ⟨p, fields⟩
        ⟨p + (advance (fun i => m (p + i)) (toUInt8 size)).toNat, fields ++ [fieldAt m size p]⟩ :=
      ⟨decodingGuard_iff.mpr ⟨hlt, hsize⟩, decodeBody_total h m _⟩
    -- The lists only grow on the way to the end.
    refine Loop.invariant_of_reaches (I := fun s => fieldAt m size p ∈ s.list) ?_ (by simp)
      (Loop.reaches_of_done ht (hs.tail hround))
    rintro s u hmem ⟨-, hbody⟩
    rw [decodeBody_total h] at hbody
    obtain rfl := Option.some.inj hbody
    exact List.mem_append_left _ hmem

end DecodedList

/-! ## Publishing -/

/-- The descriptors for which `main` publishes a message. -/
def IsPublished (descriptor : UInt8) : Prop :=
  descriptor = dataFieldEulerAnglesSet ∨
    descriptor = dataFieldScaledAccelerometerVectorSet ∨ descriptor = dataFieldScaledGyroVectorSet

/-- The casts of `main` fit the objects of the decoder, whose class follows their descriptor. -/
theorem publishField_fieldAt (degrees : UInt32 → UInt32) (m : ℕ → UInt8) (size : ℤ) (p : ℕ) :
    ∃ ps, publishField degrees (some (fieldAt m size p)) = some ps ∧
      (ps ≠ [] ↔ IsPublished (fieldAt m size p).getFieldDescriptor) := by
  rw [getFieldDescriptor_fieldAt]
  -- An object with a published descriptor is of a vector class.
  have hfloats : IsPublished (m (p + 1)) → ∃ x y z, (fieldAt m size p).floats = some (x, y, z) := by
    rintro (h | h | h) <;> simp [fieldAt, decoded, h, VectorClass.ofDescriptor, MipField.floats,
      dataFieldEulerAnglesSet, dataFieldScaledAccelerometerVectorSet, dataFieldScaledGyroVectorSet]
  simp only [publishField, Option.bind_eq_bind, Option.bind_some, getFieldDescriptor_fieldAt]
  split_ifs with h1 h2 h3
  · obtain ⟨x, y, z, hxyz⟩ := hfloats (.inl h1)
    simp [hxyz, IsPublished, h1]
  · obtain ⟨x, y, z, hxyz⟩ := hfloats (.inr (.inl h2))
    simp [hxyz, IsPublished, h2]
  · obtain ⟨x, y, z, hxyz⟩ := hfloats (.inr (.inr h3))
    simp [hxyz, IsPublished, h3]
  · simp [IsPublished, h1, h2, h3]

/-- The loop of `main` over a list of decoded fields. -/
theorem mapM_publishField (degrees : UInt32 → UInt32) (xs : List MipField)
    (h : ∀ x ∈ xs, ∃ ps, publishField degrees (some x) = some ps ∧
      (ps ≠ [] ↔ IsPublished x.getFieldDescriptor)) :
    ∃ pss, (xs.map some).mapM (publishField degrees) = some pss ∧
      (pss.flatten ≠ [] ↔ ∃ x ∈ xs, IsPublished x.getFieldDescriptor) := by
  induction xs with
  | nil => exact ⟨[], rfl, by simp⟩
  | cons x xs ih =>
    obtain ⟨ps, hps, hiff⟩ := h x (by simp)
    obtain ⟨pss, hpss, hiffs⟩ := ih fun y hy => h y (by simp [hy])
    refine ⟨ps :: pss, by simp [hps, hpss], ?_⟩
    rw [List.exists_mem_cons_iff, ← hiff, ← hiffs, List.flatten_cons, Ne, List.append_eq_nil_iff]
    tauto

/-! ## The handling of a frame -/

/-- The payload of a frame, and the bytes behind it, as the decoder is given it. -/
def payloadOf (frame : List UInt8) : ℕ → UInt8 := fun i => frame.getD (4 + i) 0

/-- The size of the payload that the decoder is given. -/
def payloadSize (frame : List UInt8) : ℤ := frame.length - 6

/-- The field decoder ends on the frame. -/
def DecoderEnds (frame : List UInt8) : Prop :=
  WalkEnds descriptorSetImuData (payloadOf frame) (payloadSize frame)

/-- `main` publishes something of the frame: its descriptor set is the IMU data set, the field
decoder ends on it, and comes to a field with one of the published descriptors. -/
def Publishes (frame : List UInt8) : Prop :=
  descriptorSetOf frame = descriptorSetImuData ∧ 2 ≤ payloadSize frame ∧ DecoderEnds frame ∧
    ∃ p, FieldStart (payloadOf frame) (payloadSize frame) p ∧ (p : ℤ) < payloadSize frame ∧
      IsPublished (payloadOf frame (p + 1))

/-- The payload in the buffer is that of the frame. -/
theorem write_payload (aBuf : Memory) (frame : List UInt8) (i : ℕ)
    (hi : (i : ℤ) ≤ payloadSize frame) : aBuf.write 0 frame (4 + i) = payloadOf frame i := by
  unfold payloadSize at hi
  rw [Memory.write_zero_apply _ _ (by omega), payloadOf]

/-- On readable memory the field decoder ends with a list or not at all. -/
theorem decodeLoop_total_cases (ds : UInt8) (m : ℕ → UInt8) (size : ℤ) {fuel : ℕ}
    (hfuel : size.toNat < fuel) :
    (¬ WalkEnds ds m size ∧ decodeLoop ds (.total m) size fuel = .running) ∨
      (WalkEnds ds m size ∧ ∃ t, decodeLoop ds (.total m) size fuel = .done t) := by
  by_cases hends : WalkEnds ds m size
  · right
    cases hout : decodeLoop ds (.total m) size fuel with
    | running => exact absurd hout (decodeLoop_ends hends hfuel)
    | fault =>
      obtain ⟨s, -, -, hnone⟩ := Loop.fault_iff.mp ⟨fuel, hout⟩
      obtain ⟨t, ht⟩ := decodeBody_total_isSome ds m size s
      rw [ht] at hnone
      cases hnone
    | done t => exact ⟨hends, t, rfl⟩
  · exact .inl ⟨hends, decodeLoop_running hends fuel⟩

/-- The fields that are decoded from the buffer, and whether one of them is published. -/
theorem publishes_iff (aBuf : Memory) {frame : List UInt8} {fuel : ℕ}
    {t : Decoding (List MipField)} (hset : descriptorSetOf frame = descriptorSetImuData)
    (hle : frame.length ≤ 255) (hends : DecoderEnds frame)
    (ht : decodeLoop descriptorSetImuData (.total fun i => aBuf.write 0 frame (4 + i))
      (payloadSize frame) fuel = .done t) :
    (∀ x ∈ t.list, ∃ p, x = fieldAt (fun i => aBuf.write 0 frame (4 + i)) (payloadSize frame) p) ∧
      ((∃ x ∈ t.list, IsPublished x.getFieldDescriptor) ↔ Publishes frame) := by
  have hpayload := write_payload aBuf frame
  by_cases hsize : 2 ≤ payloadSize frame
  · have hreads : ReadsFields descriptorSetImuData (payloadSize frame) := by
      refine ⟨rfl, ?_⟩
      unfold payloadSize at hsize ⊢
      omega
    have hmem := mem_list_iff hreads hsize ht
    refine ⟨fun x hx => ?_, ?_⟩
    · obtain ⟨p, -, -, hp⟩ := (hmem x).mp hx
      exact ⟨p, hp⟩
    · constructor
      · rintro ⟨x, hx, hpub⟩
        obtain ⟨p, hp, hlt, rfl⟩ := (hmem x).mp hx
        rw [getFieldDescriptor_fieldAt, hpayload _ (by omega)] at hpub
        exact ⟨hset, hsize, hends, p, hp.congr hpayload, hlt, hpub⟩
      · rintro ⟨-, -, -, p, hp, hlt, hpub⟩
        refine ⟨_, (hmem _).mpr
          ⟨p, hp.congr fun i hi => (hpayload i hi).symm, hlt, rfl⟩, ?_⟩
        rw [getFieldDescriptor_fieldAt, hpayload _ (by omega)]
        exact hpub
  · -- A payload that is too short for a field has none.
    have hguard : decodingGuard (payloadSize frame) (⟨0, []⟩ : Decoding (List MipField)) =
        false := by
      rw [Bool.eq_false_iff]
      exact fun h => hsize (decodingGuard_iff.mp h).2
    unfold decodeLoop at ht
    rw [Loop.whileLoop_of_false hguard] at ht
    obtain rfl := Outcome.done.inj ht
    exact ⟨by simp, by simp [Publishes, hsize]⟩

/-- The handling of a packet in terms of its field list. -/
theorem handlePacket_eq (degrees : UInt32 → UInt32) (m : Memory) {size : ℕ} (hsize : 2 ≤ size) :
    handlePacket degrees m size =
      MipFieldList.new.deserialize (m 2) (.total fun i => m (4 + i)) (size - 6) decoderRounds >>=
        fun decoding => .ofOption decoding.list.iterate >>=
        fun fields => .ofOption (fields.mapM (publishField degrees)) >>=
        fun published => pure published.flatten := by
  simp only [handlePacket, MipPacket.deserialize_total _ _ (show (2 : ℤ) ≤ size by omega)]
  have hnew : (MipPacket.new false).fieldList = MipFieldList.new := rfl
  rw [hnew]
  cases MipFieldList.new.deserialize (m 2) (.total fun i => m (4 + i)) (size - 6) decoderRounds <;>
    rfl

/-- The handling of a frame never ends, or ends with messages that the frame decides on. -/
theorem handlePacket_cases (degrees : UInt32 → UInt32) (aBuf : Memory) {frame : List UInt8}
    (hset : descriptorSetOf frame = descriptorSetImuData) (hlen : 6 ≤ frame.length)
    (hle : frame.length ≤ 255) :
    (¬ DecoderEnds frame ∧
      handlePacket degrees (aBuf.write 0 frame) frame.length = .running) ∨
    (DecoderEnds frame ∧ ∃ ps, handlePacket degrees (aBuf.write 0 frame) frame.length = .done ps ∧
      (ps ≠ [] ↔ Publishes frame)) := by
  have htwo : aBuf.write 0 frame 2 = descriptorSetImuData := by
    rw [Memory.write_zero_apply _ _ (by omega)]
    exact hset
  -- The walk does not depend on what is behind the frame in the buffer.
  have hwalk : WalkEnds descriptorSetImuData (fun i => aBuf.write 0 frame (4 + i))
      (payloadSize frame) ↔ DecoderEnds frame := walkEnds_congr (write_payload aBuf frame)
  have hrel := deserialize_related descriptorSetImuData
    (.total fun i => aBuf.write 0 frame (4 + i)) (payloadSize frame) decoderRounds
  rw [handlePacket_eq degrees _ (by omega), htwo]
  change (_ ∧ (MipFieldList.new.deserialize _ _ (payloadSize frame) _ >>= _) = _) ∨
    (_ ∧ ∃ ps, (MipFieldList.new.deserialize _ _ (payloadSize frame) _ >>= _) = _ ∧ _)
  generalize MipFieldList.new.deserialize descriptorSetImuData
    (.total fun i => aBuf.write 0 frame (4 + i)) (payloadSize frame) decoderRounds = out at hrel ⊢
  rcases decodeLoop_total_cases descriptorSetImuData (fun i => aBuf.write 0 frame (4 + i))
    (payloadSize frame) (show (payloadSize frame).toNat < decoderRounds by
      unfold payloadSize decoderRounds
      omega) with
    ⟨hends, hrun⟩ | ⟨hends, t, ht⟩
  · -- The field decoder never ends, and neither does the handling.
    rw [hrun] at hrel
    cases hrel
    exact .inl ⟨fun h => hends (hwalk.mpr h), rfl⟩
  · -- The field decoder ends with the fields of the walk.
    rw [ht] at hrel
    cases hrel with
    | @done decoding _ hsame =>
      obtain ⟨hfields, hpublishes⟩ := publishes_iff aBuf hset hle (hwalk.mp hends) ht
      obtain ⟨pss, hpss, hiff⟩ := mapM_publishField degrees t.list fun x hx => by
        obtain ⟨p, rfl⟩ := hfields x hx
        exact publishField_fieldAt degrees _ _ p
      refine .inr ⟨hwalk.mp hends, pss.flatten, ?_, hiff.trans hpublishes⟩
      simp only [Outcome.done_bind, MipFieldList.iterate_eq hsame.2, Outcome.ofOption_some, hpss,
        Outcome.pure_eq]

end Guillemot.Imu
