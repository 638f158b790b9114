import Guillemot.Imu.MipFieldList

/-!
# Which payloads the field decoder gets through, and which it reads past

`MipFieldList::deserialize` walks over a payload from field to field. `FieldStart` is the set of
positions on this walk: the decoder moves on from a field by its length byte, unless the field is
one that it does not get past (`Advances`). It passes its whole size to `deserializeToField` and not
what is left of it, so a field near the end can be read past the end of the payload (`InBounds`).

The equations of one round (`decodeBody_total`, `decodeBody_upTo`) are all that the two results use
of the decoder: `deserialize_terminates_iff`, on memory that is readable throughout, and
`deserialize_reads_below_iff`, on a payload alone.
-/

namespace Guillemot.Imu

open Relation (ReflTransGen)

/-! ## The walk -/

/-- The decoder gets past the field at `p`: its length byte is not zero and, when its descriptor is
one of a vector class, it is the static size of these classes and fits the size as a byte. -/
def Advances (m : ℕ → UInt8) (size : ℤ) (p : ℕ) : Prop :=
  m p ≠ 0 ∧ (isVectorDescriptor (m (p + 1)) → m p = vectorLength ∧ 14 ≤ size % 256)

/-- The positions that the decoder comes to, by the length bytes of the fields it gets past. -/
inductive FieldStart (m : ℕ → UInt8) (size : ℤ) : ℕ → Prop
  | zero : FieldStart m size 0
  | next {p : ℕ} : FieldStart m size p → (p : ℤ) < size → Advances m size p →
      FieldStart m size (p + (m p).toNat)

/-- What is read of the field at `p` lies below `size`: its two header bytes and, when its floats
are read, all of its bytes. -/
def InBounds (m : ℕ → UInt8) (size : ℤ) (p : ℕ) : Prop :=
  (p : ℤ) + 2 ≤ size ∧
    (isVectorDescriptor (m (p + 1)) → m p = vectorLength → 14 ≤ size % 256 → (p : ℤ) + 14 ≤ size)

section Congr

variable {m m' : ℕ → UInt8} {size : ℤ} (h : ∀ i : ℕ, (i : ℤ) ≤ size → m i = m' i)

include h in
/-- Whether the decoder gets past a field depends on its first two bytes. -/
theorem advances_congr {p : ℕ} (hp : (p : ℤ) < size) : Advances m size p ↔ Advances m' size p := by
  rw [Advances, Advances, h p (by omega), h (p + 1) (by omega)]

include h in
/-- The walk over a payload depends on the payload and the byte after it. -/
theorem FieldStart.congr {p : ℕ} (hp : FieldStart m size p) : FieldStart m' size p := by
  induction hp with
  | zero => exact .zero
  | next _ hlt hadv ih =>
    rw [h _ (by omega)]
    exact ih.next hlt ((advances_congr h hlt).mp hadv)

end Congr

/-- The floats of the field at `p` are read when its length byte is 14 and the size leaves room. -/
theorem holdsFloats_iff (m : ℕ → UInt8) (size : ℤ) (p : ℕ) :
    HoldsFloats (fun i => m (p + i)) (toUInt8 size) ↔ m p = vectorLength ∧ 14 ≤ size % 256 := by
  have hsize := toNat_toUInt8 size
  have hle : vectorLength ≤ toUInt8 size ↔ 14 ≤ size % 256 := by
    rw [UInt8.le_iff_toNat_le, ← hsize]
    simp [vectorLength]
  simp [HoldsFloats, hle]

/-- A field that the decoder gets past moves it on by its length byte. -/
theorem advance_of_advances {m : ℕ → UInt8} {size : ℤ} {p : ℕ} (h : Advances m size p) :
    advance (fun i => m (p + i)) (toUInt8 size) = m p := by
  unfold advance
  split_ifs with hvec hf
  · exact ((holdsFloats_iff m size p).mp hf).1.symm
  · exact absurd ((holdsFloats_iff m size p).mpr (h.2 hvec)) hf
  · rfl

/-- A field that the decoder does not get past leaves it where it is. -/
theorem advance_of_not_advances {m : ℕ → UInt8} {size : ℤ} {p : ℕ} (h : ¬ Advances m size p) :
    advance (fun i => m (p + i)) (toUInt8 size) = 0 := by
  unfold advance
  split_ifs with hvec hf
  · have hf' := (holdsFloats_iff m size p).mp hf
    exact absurd ⟨by rw [hf'.1]; decide, fun _ => hf'⟩ h
  · rfl
  · by_contra hne
    exact h ⟨hne, fun hv => absurd hv hvec⟩

/-! ## One round -/

/-- The guard of the decoding loop in words. -/
theorem decodingGuard_iff {L : Type*} {size : ℤ} {s : Decoding L} :
    decodingGuard size s = true ↔ (s.pos : ℤ) < size ∧ 2 ≤ size := by
  unfold decodingGuard
  rw [decide_eq_true_iff]
  simp [minMipFieldHeaderSize]

/-- The value that `pos` moves on by is read for the IMU data set, and from sizes whose low byte
leaves room for a header. -/
def ReadsFields (descriptorSet : UInt8) (size : ℤ) : Prop :=
  descriptorSet = descriptorSetImuData ∧ 2 ≤ size % 256

/-- The size as a byte leaves room for a header. -/
theorem ReadsFields.two_le {ds : UInt8} {size : ℤ} (h : ReadsFields ds size) :
    2 ≤ (toUInt8 size).toNat := by
  have hbyte := toNat_toUInt8 size
  have hroom := h.2
  omega

/-- Where no field is read, a round changes nothing. -/
theorem decodeBody_of_not_readsFields {ds : UInt8} {size : ℤ} (h : ¬ ReadsFields ds size)
    (pBuf : Buf) (s : Decoding (List MipField)) : decodeBody ds pBuf size s = some s := by
  have hat : deserializeAt ds pBuf size s.pos = some (0, none) := by
    unfold deserializeAt
    split_ifs with hds
    · refine deserializeToField_of_lt ?_
      have := toNat_toUInt8 size
      have : ¬ 2 ≤ size % 256 := fun h2 => h ⟨hds, h2⟩
      omega
    · rfl
  simp [decodeBody, hat]

/-- A round of the decoder on readable memory. -/
theorem decodeBody_total {ds : UInt8} {size : ℤ} (h : ReadsFields ds size) (m : ℕ → UInt8)
    (s : Decoding (List MipField)) :
    decodeBody ds (.total m) size s =
      some ⟨s.pos + (advance (fun i => m (s.pos + i)) (toUInt8 size)).toNat,
        s.list ++ [decoded (fun i => m (s.pos + i)) (toUInt8 size)]⟩ := by
  simp [decodeBody, deserializeAt, h.1, deserializeToField_total h.two_le]

/-- A round of the decoder on a payload of `size` bytes: what it is on readable memory, when the
field is in bounds. -/
theorem decodeBody_upTo {ds : UInt8} {size : ℤ} (h : ReadsFields ds size) (m : ℕ → UInt8)
    (s : Decoding (List MipField)) (hb : InBounds m size s.pos) :
    decodeBody ds (.upTo m size.toNat) size s = decodeBody ds (.total m) size s := by
  have hread : ∀ i : ℕ, (s.pos : ℤ) + i < size →
      (Buf.upTo m size.toNat).offset s.pos i = some (m (s.pos + i)) := by
    intro i hi
    have : s.pos + i < size.toNat := by omega
    simp [Buf.upTo, this]
  have hfield : deserializeToField ((Buf.upTo m size.toNat).offset s.pos) (toUInt8 size) =
      deserializeToField ((Buf.total m).offset s.pos) (toUInt8 size) := by
    rw [Buf.offset_total, deserializeToField_total h.two_le]
    -- The two header bytes are in bounds, and the floats when they are read.
    refine deserializeToField_of_readable h.two_le ?_ ?_ fun hvec hf i hi => ?_
    · exact hread 0 (by have := hb.1; omega)
    · exact hread 1 (by have := hb.1; omega)
    · obtain ⟨hlen, hroom⟩ := (holdsFloats_iff m size s.pos).mp hf
      have := hb.2 hvec hlen hroom
      exact hread i (by omega)
  simp only [decodeBody, deserializeAt, h.1, if_true, hfield]

/-- A round of the decoder on a payload of `size` bytes faults when the field is out of bounds. -/
theorem decodeBody_upTo_eq_none {ds : UInt8} {size : ℤ} (h : ReadsFields ds size) (m : ℕ → UInt8)
    (s : Decoding (List MipField)) (hpos : (s.pos : ℤ) < size) (hb : ¬ InBounds m size s.pos) :
    decodeBody ds (.upTo m size.toNat) size s = none := by
  have hfield :
      deserializeToField ((Buf.upTo m size.toNat).offset s.pos) (toUInt8 size) = none := by
    by_cases hhdr : (s.pos : ℤ) + 2 ≤ size
    · -- The header is in bounds, so the floats are read and are not.
      obtain ⟨hvec, hlen, hroom, hout⟩ : isVectorDescriptor (m (s.pos + 1)) ∧
          m s.pos = vectorLength ∧ 14 ≤ size % 256 ∧ ¬ (s.pos : ℤ) + 14 ≤ size := by
        by_contra hcon
        refine hb ⟨hhdr, fun hvec hlen hroom => ?_⟩
        by_contra hout
        exact hcon ⟨hvec, hlen, hroom, hout⟩
      refine deserializeToField_of_unreadable_floats (m := fun i => m (s.pos + i)) ?_ ?_ hvec
        ((holdsFloats_iff m size s.pos).mpr ⟨hlen, hroom⟩) ?_
      · simp [Buf.upTo]; omega
      · simp [Buf.upTo]; omega
      · simp [Buf.upTo]; omega
    · -- The header is out of bounds, so the descriptor byte is read in vain.
      refine deserializeToField_of_unreadable_header h.two_le ?_
      simp [Buf.upTo]; omega
  simp [decodeBody, deserializeAt, h.1, hfield]

/-! ## Termination -/

/-- No fault of the linked list or of the buffer happens on readable memory. -/
theorem decodeBody_total_isSome (ds : UInt8) (m : ℕ → UInt8) (size : ℤ)
    (s : Decoding (List MipField)) : ∃ t, decodeBody ds (.total m) size s = some t := by
  by_cases h : ReadsFields ds size
  · exact ⟨_, decodeBody_total h m s⟩
  · exact ⟨s, decodeBody_of_not_readsFields h _ s⟩

/-- The payloads that the decoder gets to the end of: those too short for a field, and those of the
IMU data set on which it gets past every field that it comes to. -/
def WalkEnds (ds : UInt8) (m : ℕ → UInt8) (size : ℤ) : Prop :=
  size < 2 ∨
    ReadsFields ds size ∧ ∀ p, FieldStart m size p → (p : ℤ) < size → Advances m size p

/-- Whether the walk ends depends on the payload and the byte after it. -/
theorem walkEnds_congr {ds : UInt8} {m m' : ℕ → UInt8} {size : ℤ}
    (h : ∀ i : ℕ, (i : ℤ) ≤ size → m i = m' i) : WalkEnds ds m size ↔ WalkEnds ds m' size := by
  have hback : ∀ i : ℕ, (i : ℤ) ≤ size → m' i = m i := fun i hi => (h i hi).symm
  refine or_congr Iff.rfl (and_congr Iff.rfl ⟨fun hw p hp hlt => ?_, fun hw p hp hlt => ?_⟩)
  · exact (advances_congr h hlt).mp (hw p (hp.congr hback) hlt)
  · exact (advances_congr h hlt).mpr (hw p (hp.congr h) hlt)

/-- The decoder stays on the walk. -/
theorem fieldStart_of_reaches {ds : UInt8} {m : ℕ → UInt8} {size : ℤ}
    (h : ReadsFields ds size) {s : Decoding (List MipField)}
    (hs : ReflTransGen (Loop.Round (decodingGuard size) (decodeBody ds (.total m) size))
      ⟨0, []⟩ s) : FieldStart m size s.pos := by
  refine Loop.invariant_of_reaches (I := fun s => FieldStart m size s.pos) ?_ .zero hs
  rintro s t hstart ⟨hguard, hbody⟩
  rw [decodeBody_total h] at hbody
  obtain rfl := Option.some.inj hbody
  by_cases hadv : Advances m size s.pos
  · rw [advance_of_advances hadv]
    exact hstart.next (decodingGuard_iff.mp hguard).1 hadv
  · rw [advance_of_not_advances hadv]
    exact hstart

/-- The decoder comes to every position of the walk. -/
theorem reaches_of_fieldStart {ds : UInt8} {m : ℕ → UInt8} {size : ℤ}
    (h : ReadsFields ds size) (hsize : 2 ≤ size) {p : ℕ} (hp : FieldStart m size p) :
    ∃ fields, ReflTransGen (Loop.Round (decodingGuard size) (decodeBody ds (.total m) size))
      ⟨0, []⟩ ⟨p, fields⟩ := by
  induction hp with
  | zero => exact ⟨[], .refl⟩
  | @next p hstart hlt hadv ih =>
    obtain ⟨fields, hreach⟩ := ih
    refine ⟨fields ++ [decoded (fun i => m (p + i)) (toUInt8 size)],
      hreach.tail ⟨decodingGuard_iff.mpr ⟨hlt, hsize⟩, ?_⟩⟩
    rw [decodeBody_total h, advance_of_advances hadv]

/-- Where the walk ends, a round that runs moves on. -/
theorem pos_lt_of_walkEnds {ds : UInt8} {m : ℕ → UInt8} {size : ℤ} (h : WalkEnds ds m size)
    {s t : Decoding (List MipField)}
    (hs : ReflTransGen (Loop.Round (decodingGuard size) (decodeBody ds (.total m) size)) ⟨0, []⟩ s)
    (hround : Loop.Round (decodingGuard size) (decodeBody ds (.total m) size) s t) :
    s.pos < t.pos := by
  obtain ⟨hguard, hbody⟩ := hround
  obtain ⟨hlt, hsize⟩ := decodingGuard_iff.mp hguard
  rcases h with hsmall | ⟨hreads, hwalk⟩
  · omega
  · have hadv := hwalk s.pos (fieldStart_of_reaches hreads hs) hlt
    rw [decodeBody_total hreads, advance_of_advances hadv] at hbody
    obtain rfl := Option.some.inj hbody
    have : (m s.pos).toNat ≠ 0 := fun h0 => hadv.1 (UInt8.toNat_inj.mp h0)
    simp only
    omega

/-- Where the walk ends, so does the decoder, within one round a byte. -/
theorem decodeLoop_ends {ds : UInt8} {m : ℕ → UInt8} {size : ℤ} (h : WalkEnds ds m size)
    {fuel : ℕ} (hfuel : size.toNat < fuel) : decodeLoop ds (.total m) size fuel ≠ .running := by
  refine Loop.ends_of_variant
    (I := ReflTransGen (Loop.Round (decodingGuard size) (decodeBody ds (.total m) size)) ⟨0, []⟩)
    (μ := fun s => (size - s.pos).toNat) (fun s t hs hround => ⟨hs.tail hround, ?_⟩) .refl
    (by simpa using hfuel)
  have hpos := pos_lt_of_walkEnds h hs hround
  have := (decodingGuard_iff.mp hround.1).1
  omega

/-- Where a round that is reached does not move on, the decoder never ends. -/
theorem decodeLoop_running {ds : UInt8} {m : ℕ → UInt8} {size : ℤ} (h : ¬ WalkEnds ds m size)
    (fuel : ℕ) : decodeLoop ds (.total m) size fuel = .running := by
  have hsize : 2 ≤ size := by
    by_contra hlt
    exact h (.inl (by omega))
  -- From a state at `p` where a round stays, every later round stays.
  have hstay : ∀ p : ℕ, (p : ℤ) < size →
      (∀ fields, ∃ fields', decodeBody ds (.total m) size ⟨p, fields⟩ = some ⟨p, fields'⟩) →
      ∀ fields fuel, Loop.whileLoop (decodingGuard size) (decodeBody ds (.total m) size) fuel
        ⟨p, fields⟩ = .running := by
    intro p hp hbody fields fuel
    refine Loop.running_of_invariant (I := fun s => s.pos = p) ?_ rfl fuel
    rintro ⟨_, fields⟩ rfl
    obtain ⟨fields', hf⟩ := hbody fields
    exact ⟨_, ⟨decodingGuard_iff.mpr ⟨hp, hsize⟩, hf⟩, rfl⟩
  by_cases hreads : ReadsFields ds size
  · -- The walk comes to a field that the decoder does not get past.
    obtain ⟨p, hp, hlt, hadv⟩ :
        ∃ p, FieldStart m size p ∧ (p : ℤ) < size ∧ ¬ Advances m size p := by
      by_contra hcon
      refine h (.inr ⟨hreads, fun p hp hlt => ?_⟩)
      by_contra hadv
      exact hcon ⟨p, hp, hlt, hadv⟩
    obtain ⟨fields, hreach⟩ := reaches_of_fieldStart hreads hsize hp
    have hends := Loop.not_ends_of_reaches hreach (hstay p hlt (fun fields => ⟨_, by
      rw [decodeBody_total hreads, advance_of_not_advances hadv]
      rfl⟩) fields)
    by_contra hne
    exact hends ⟨fuel, hne⟩
  · -- No field is read, and the first round stays already.
    refine hstay 0 (by omega) (fun fields => ⟨fields, ?_⟩) [] fuel
    exact decodeBody_of_not_readsFields hreads _ _

/-- Every round of `MipFieldList::deserialize` that is run moves the position on. -/
def EveryRoundAdvances (ds : UInt8) (pBuf : Buf) (size : ℤ) : Prop :=
  ∀ s, ReflTransGen (Loop.Round (decodingGuard size) (deserializeBody ds pBuf size))
      ⟨0, .new⟩ s → decodingGuard size s = true →
    ∃ t, deserializeBody ds pBuf size s = some t ∧ s.pos < t.pos

/-- `MipFieldList::deserialize` ends on a fresh list. -/
def Terminates (ds : UInt8) (pBuf : Buf) (size : ℤ) : Prop :=
  ∃ fuel, MipFieldList.new.deserialize ds pBuf size fuel ≠ .running

/-- The decoder runs on when the loop over a Lean list does. -/
theorem deserialize_running_iff (ds : UInt8) (pBuf : Buf) (size : ℤ) (fuel : ℕ) :
    MipFieldList.new.deserialize ds pBuf size fuel = .running ↔
      decodeLoop ds pBuf size fuel = .running :=
  (deserialize_related ds pBuf size fuel).running_iff

/-- The decoder ends within one round a byte, or never. -/
theorem deserialize_running_iff_not_walkEnds {ds : UInt8} {m : ℕ → UInt8} {size : ℤ} {fuel : ℕ}
    (hfuel : size.toNat < fuel) :
    MipFieldList.new.deserialize ds (.total m) size fuel = .running ↔ ¬ WalkEnds ds m size := by
  rw [deserialize_running_iff]
  exact ⟨fun hrun h => decodeLoop_ends h hfuel hrun, fun h => decodeLoop_running h fuel⟩

/-- `MipFieldList::deserialize` moves on in every round, and ends, exactly on the payloads that are
too short for a field and on those of the IMU data set on which it gets past every field that it
comes to. On a field that it does not get past, and on any other data set, it loops forever. -/
theorem deserialize_terminates_iff (ds : UInt8) (m : ℕ → UInt8) (size : ℤ) :
    EveryRoundAdvances ds (.total m) size ∧ Terminates ds (.total m) size ↔
      WalkEnds ds m size := by
  constructor
  · rintro ⟨-, fuel, hfuel⟩
    by_contra h
    exact hfuel ((deserialize_running_iff ds _ size fuel).mpr (decodeLoop_running h fuel))
  · intro h
    refine ⟨fun s hs hguard => ?_, size.toNat + 1, fun hrun =>
      (deserialize_running_iff_not_walkEnds (Nat.lt_succ_self _)).mp hrun h⟩
    -- A round of the source is matched by one of the loop over a Lean list, which moves on.
    have hsim := deserialize_simulates ds (.total m) size
    obtain ⟨a, ha, hpos, hrep⟩ := hsim.reaches (a := ⟨0, []⟩)
      ⟨rfl, MipFieldList.new_represents⟩ hs
    obtain ⟨b, hb⟩ := decodeBody_total_isSome ds m size a
    rcases Loop.guard_cases (decodingGuard size) (deserializeBody ds (.total m) size) s with
      hf | ⟨-, hnone⟩ | ⟨t, ht⟩
    · simp [hguard] at hf
    · have := hsim.fault s a ⟨hpos, hrep⟩ hguard hnone
      simp [hb] at this
    · obtain ⟨c, hc, htc, -⟩ := hsim.round s a t ⟨hpos, hrep⟩ ht
      have hlt := pos_lt_of_walkEnds h ha ⟨hsim.guard s a ⟨hpos, hrep⟩ ▸ hguard, hc⟩
      exact ⟨t, ht.2, by rw [hpos, htc]; exact hlt⟩

/-- A payload of one field whose length byte is zero, on which the decoder loops forever. -/
theorem deserialize_loops_on_zero_length :
    ¬ (EveryRoundAdvances descriptorSetImuData (.total fun i => [0x00, 0x01].getD i 0) 2 ∧
      Terminates descriptorSetImuData (.total fun i => [0x00, 0x01].getD i 0) 2) := by
  rintro ⟨-, fuel, hfuel⟩
  refine hfuel ((deserialize_running_iff _ _ _ fuel).mpr (decodeLoop_running ?_ fuel))
  rintro (h | ⟨-, h⟩)
  · omega
  · exact (h 0 .zero (by decide)).1 rfl

/-! ## Bounds -/

/-- The decoder reads no byte from index `size` on: on a pointer to the payload alone, it never
faults. -/
def ReadsBelow (ds : UInt8) (m : ℕ → UInt8) (size : ℤ) : Prop :=
  ∀ fuel, MipFieldList.new.deserialize ds (.upTo m size.toNat) size fuel ≠ .fault

/-- The decoder faults when the loop over a Lean list does. -/
theorem deserialize_fault_iff (ds : UInt8) (pBuf : Buf) (size : ℤ) (fuel : ℕ) :
    MipFieldList.new.deserialize ds pBuf size fuel = .fault ↔
      decodeLoop ds pBuf size fuel = .fault :=
  (deserialize_related ds pBuf size fuel).fault_iff

/-- A round on the payload alone is one on readable memory. -/
theorem round_total_of_round_upTo {ds : UInt8} {m : ℕ → UInt8} {size : ℤ}
    (h : ReadsFields ds size) {s t : Decoding (List MipField)}
    (hround : Loop.Round (decodingGuard size) (decodeBody ds (.upTo m size.toNat) size) s t) :
    Loop.Round (decodingGuard size) (decodeBody ds (.total m) size) s t := by
  obtain ⟨hguard, hbody⟩ := hround
  by_cases hb : InBounds m size s.pos
  · exact ⟨hguard, by rw [← decodeBody_upTo h m s hb, hbody]⟩
  · simp [decodeBody_upTo_eq_none h m s (decodingGuard_iff.mp hguard).1 hb] at hbody

/-- Without a fault, the decoder on the payload alone comes to every position of the walk. -/
theorem reaches_upTo_of_fieldStart {ds : UInt8} {m : ℕ → UInt8} {size : ℤ}
    (h : ReadsFields ds size) (hsize : 2 ≤ size)
    (hsafe : ∀ fuel, decodeLoop ds (.upTo m size.toNat) size fuel ≠ .fault) {p : ℕ}
    (hp : FieldStart m size p) :
    ∃ fields, ReflTransGen
      (Loop.Round (decodingGuard size) (decodeBody ds (.upTo m size.toNat) size))
      ⟨0, []⟩ ⟨p, fields⟩ := by
  induction hp with
  | zero => exact ⟨[], .refl⟩
  | @next p hstart hlt hadv ih =>
    obtain ⟨fields, hreach⟩ := ih
    have hguard : decodingGuard size (⟨p, fields⟩ : Decoding (List MipField)) = true :=
      decodingGuard_iff.mpr ⟨hlt, hsize⟩
    have hb : InBounds m size p := by
      by_contra hout
      obtain ⟨fuel, hf⟩ := Loop.fault_iff.mpr
        ⟨_, hreach, hguard, decodeBody_upTo_eq_none h m ⟨p, fields⟩ hlt hout⟩
      exact hsafe fuel hf
    refine ⟨fields ++ [decoded (fun i => m (p + i)) (toUInt8 size)],
      hreach.tail ⟨hguard, ?_⟩⟩
    rw [decodeBody_upTo h m ⟨p, fields⟩ hb, decodeBody_total h, advance_of_advances hadv]

/-- `MipFieldList::deserialize` reads below `size` exactly when every field that it comes to has its
header there and, where it reads floats, its floats too; or when it reads no field at all. -/
theorem deserialize_reads_below_iff (ds : UInt8) (m : ℕ → UInt8) (size : ℤ) :
    ReadsBelow ds m size ↔
      (2 ≤ size → ReadsFields ds size →
        ∀ p, FieldStart m size p → (p : ℤ) < size → InBounds m size p) := by
  constructor
  · intro hsafe hsize hreads p hp hlt
    have hsafe' : ∀ fuel, decodeLoop ds (.upTo m size.toNat) size fuel ≠ .fault :=
      fun fuel hf => hsafe fuel ((deserialize_fault_iff ds _ size fuel).mpr hf)
    by_contra hout
    obtain ⟨fields, hreach⟩ := reaches_upTo_of_fieldStart hreads hsize hsafe' hp
    obtain ⟨fuel, hf⟩ := Loop.fault_iff.mpr ⟨_, hreach, decodingGuard_iff.mpr ⟨hlt, hsize⟩,
      decodeBody_upTo_eq_none hreads m ⟨p, fields⟩ hlt hout⟩
    exact hsafe' fuel hf
  · -- A fault would happen at a field of the walk, and these are in bounds.
    intro hbounds fuel hf
    obtain ⟨s, hreach, hguard, hnone⟩ :=
      Loop.fault_iff.mp ⟨fuel, (deserialize_fault_iff ds _ size fuel).mp hf⟩
    obtain ⟨hlt, hsize⟩ := decodingGuard_iff.mp hguard
    by_cases hreads : ReadsFields ds size
    · have hstart := fieldStart_of_reaches hreads
        (ReflTransGen.mono (fun _ _ hround => round_total_of_round_upTo hreads hround) _ _ hreach)
      have hb := hbounds hsize hreads s.pos hstart hlt
      rw [decodeBody_upTo hreads m s hb, decodeBody_total hreads] at hnone
      cases hnone
    · rw [decodeBody_of_not_readsFields hreads] at hnone
      cases hnone

/-- A payload of one two-byte field and one byte more, past which the decoder reads. -/
theorem deserialize_reads_past_truncated_field :
    ¬ ReadsBelow descriptorSetImuData (fun i => [0x02, 0x01, 0x02].getD i 0) 3 := by
  intro h
  exact h 2 (by decide)

end Guillemot.Imu
