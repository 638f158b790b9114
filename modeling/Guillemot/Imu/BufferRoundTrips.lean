import Guillemot.Imu.BufferUtils

/-!
# Reading what was written with `BufferUtils`

For each of the eight types, `RoundTrips` says of a value that its put function writes the bytes of
the type, and no others, and that the get function reads the value from them. The put functions of
the integers write in the order of the host, least significant byte first, and the get functions
read most significant byte first. The functions for `Float32` agree. `putFloat64` writes four bytes
twice, and leaves the other four. So `roundTrips_iff` says which values survive.
-/

namespace Guillemot.Imu

/-! ## The eight types -/

/-- The types of `BufferUtils.hpp`. -/
inductive BufferType where
  | uInt8
  | uInt16
  | uInt32
  | int8
  | int16
  | int32
  | float32
  | float64
deriving DecidableEq, Repr

namespace BufferType

/-- The values of a type. -/
abbrev Value : BufferType → Type
  | uInt8 => UInt8
  | uInt16 => UInt16
  | uInt32 => UInt32
  | int8 => Int8
  | int16 => Int16
  | int32 => Int32
  | float32 => UInt32
  | float64 => UInt64

/-- The number of bytes of a type. -/
def size : BufferType → ℕ
  | uInt8 | int8 => 1
  | uInt16 | int16 => 2
  | uInt32 | int32 | float32 => 4
  | float64 => 8

/-- The put function of a type. -/
def put : (type : BufferType) → List UInt8 → ℕ → type.Value → Option (List UInt8)
  | uInt8 => putUInt8
  | uInt16 => putUInt16
  | uInt32 => putUInt32
  | int8 => putInt8
  | int16 => putInt16
  | int32 => putInt32
  | float32 => putFloat32
  | float64 => putFloat64

/-- The get function of a type. -/
def get : (type : BufferType) → Buf → Option type.Value
  | uInt8 => getUInt8
  | uInt16 => getUInt16
  | uInt32 => getUInt32
  | int8 => getInt8
  | int16 => getInt16
  | int32 => getInt32
  | float32 => getFloat32
  | float64 => getFloat64

/-- The bytes of a value in the memory of the host. -/
def hostBytes : (type : BufferType) → type.Value → List UInt8
  | uInt8, data => [data]
  | uInt16, data => [hostByte16 data 0, hostByte16 data 1]
  | uInt32, data => [hostByte data 0, hostByte data 1, hostByte data 2, hostByte data 3]
  | int8, data => [Int8.toUInt8 data]
  | int16, data => [hostByte16 (Int16.toUInt16 data) 0, hostByte16 (Int16.toUInt16 data) 1]
  | int32, data => [hostByte (Int32.toUInt32 data) 0, hostByte (Int32.toUInt32 data) 1,
      hostByte (Int32.toUInt32 data) 2, hostByte (Int32.toUInt32 data) 3]
  | float32, data => [hostByte data 0, hostByte data 1, hostByte data 2, hostByte data 3]
  | float64, data => [hostByte64 data 0, hostByte64 data 1, hostByte64 data 2, hostByte64 data 3,
      hostByte64 data 4, hostByte64 data 5, hostByte64 data 6, hostByte64 data 7]

/-- The put function writes the bytes of the type, wherever the value is put and whatever is there
before, and the get function reads the value from them. -/
def RoundTrips (type : BufferType) (data : type.Value) : Prop :=
  ∃ bytes : List UInt8, bytes.length = type.size ∧
    ∀ front old back : List UInt8, old.length = type.size →
      type.put (front ++ old ++ back) front.length data = some (front ++ bytes ++ back) ∧
        type.get ((Buf.ofList (front ++ bytes ++ back)).offset front.length) = some data

/-- What a value has to be to survive: an integer is the same in either order of its bytes. No
`Float64` survives, and every `Float32` does. -/
def Survives (type : BufferType) (data : type.Value) : Prop :=
  type ≠ float64 ∧ (type ≠ float32 → (type.hostBytes data).reverse = type.hostBytes data)

end BufferType

/-! ## Writing and reading bytes in a row -/

/-- Writes at the indices from `pos` on. -/
def pokeAll (buf : List UInt8) (pos : ℕ) : List UInt8 → Option (List UInt8)
  | [] => some buf
  | b :: bs => (poke buf pos b).bind fun buf => pokeAll buf (pos + 1) bs

/-- A write in the middle of a buffer. -/
theorem poke_append (front back : List UInt8) (a b : UInt8) :
    poke (front ++ a :: back) front.length b = some (front ++ b :: back) := by
  simp [poke]

/-- Writes in the middle of a buffer replace what is there. -/
theorem pokeAll_append (front old back bytes : List UInt8) (hlen : old.length = bytes.length) :
    pokeAll (front ++ old ++ back) front.length bytes = some (front ++ bytes ++ back) := by
  induction bytes generalizing front old with
  | nil =>
    obtain rfl := List.eq_nil_of_length_eq_zero hlen
    rfl
  | cons b bytes ih =>
    obtain ⟨a, old, rfl⟩ := List.exists_cons_of_length_eq_add_one hlen
    have hrest := ih (front ++ [b]) old (by simpa using hlen)
    rw [List.append_assoc front, List.cons_append, pokeAll, poke_append, Option.bind_some]
    simpa using hrest

/-- What is read where bytes are in the middle of a buffer. -/
theorem offset_append (front bytes back : List UInt8) {i : ℕ} (hi : i < bytes.length) :
    (Buf.ofList (front ++ bytes ++ back)).offset front.length i = bytes[i]? := by
  rw [Buf.offset_apply, Buf.ofList, List.append_assoc,
    List.getElem?_append_right (Nat.le_add_right _ _), Nat.add_sub_cancel_left,
    List.getElem?_append_left hi]

/-- A put function that writes `bytes` in a row, and a get function that reads `read` from them. -/
theorem BufferType.roundTrips_iff_eq {type : BufferType} {data read : type.Value}
    {bytes : List UInt8} (hlen : bytes.length = type.size)
    (hput : ∀ buf pos, type.put buf pos data = pokeAll buf pos bytes)
    (hget : ∀ pBuf : Buf, (∀ i < bytes.length, pBuf i = bytes[i]?) → type.get pBuf = some read) :
    type.RoundTrips data ↔ read = data := by
  have hread : ∀ front back : List UInt8,
      type.get ((Buf.ofList (front ++ bytes ++ back)).offset front.length) = some read :=
    fun front back => hget _ fun i hi => offset_append front bytes back hi
  constructor
  · rintro ⟨bytes', -, htrip⟩
    obtain ⟨hwritten, hdata⟩ := htrip [] (List.replicate type.size 0) [] List.length_replicate
    -- The bytes that are written are the ones in question.
    rw [hput, pokeAll_append _ _ _ _ (by rw [List.length_replicate, hlen])] at hwritten
    rw [← Option.some.inj hwritten, hread] at hdata
    exact Option.some.inj hdata
  · rintro rfl
    refine ⟨bytes, hlen, fun front old back hold => ⟨?_, hread front back⟩⟩
    rw [hput, pokeAll_append _ _ _ _ (hold.trans hlen.symm)]

/-- A type whose functions are those of another one, on values that correspond to its own. -/
theorem BufferType.roundTrips_of_inverse (type type' : BufferType) {f : type'.Value → type.Value}
    {g : type.Value → type'.Value} (hfg : ∀ b, f (g b) = b) (hgf : ∀ a, g (f a) = a)
    (hsize : type.size = type'.size)
    (hput : ∀ buf pos data, type.put buf pos data = type'.put buf pos (g data))
    (hget : ∀ pBuf, type.get pBuf = (type'.get pBuf).map f) (data : type.Value) :
    type.RoundTrips data ↔ type'.RoundTrips (g data) := by
  have hread : ∀ pBuf, type.get pBuf = some data ↔ type'.get pBuf = some (g data) := by
    intro pBuf
    rw [hget, Option.map_eq_some_iff]
    constructor
    · rintro ⟨a, ha, rfl⟩
      rw [ha, hgf]
    · exact fun h => ⟨g data, h, hfg data⟩
  unfold RoundTrips
  simp only [hsize, hput, hread]

/-! ## The types one by one -/

/-- A two-byte word is put together from its bytes again. -/
theorem word_hostByte16 (data : UInt16) :
    (hostByte16 data 1).toUInt16 <<< 8 ||| (hostByte16 data 0).toUInt16 = data := by
  have hdata := data.toNat_lt
  have h1 : (hostByte16 data 1).toNat = data.toNat / 256 % 256 := by
    simp [hostByte16, Nat.shiftRight_eq_div_pow]
  have h0 : (hostByte16 data 0).toNat = data.toNat % 256 := by
    simp [hostByte16]
  rw [← UInt16.toNat_inj, toNat_word, h1, h0]
  omega

/-- A two-byte word that is read from its bytes in the order of the host. -/
theorem word_swapped_iff (data : UInt16) :
    (hostByte16 data 0).toUInt16 <<< 8 ||| (hostByte16 data 1).toUInt16 = data ↔
      [hostByte16 data 0, hostByte16 data 1].reverse = [hostByte16 data 0, hostByte16 data 1] := by
  conv_lhs => rhs; rw [← word_hostByte16 data]
  rw [word_inj]
  simp [eq_comm]

/-- A four-byte word that is read from its bytes in the order of the host. -/
theorem bigEndian_swapped_iff (data : UInt32) :
    bigEndian (hostByte data 0) (hostByte data 1) (hostByte data 2) (hostByte data 3) = data ↔
      [hostByte data 0, hostByte data 1, hostByte data 2, hostByte data 3].reverse =
        [hostByte data 0, hostByte data 1, hostByte data 2, hostByte data 3] := by
  conv_lhs => rhs; rw [← bigEndian_hostByte data]
  rw [bigEndian_inj]
  simp only [List.reverse_cons, List.reverse_nil, List.nil_append, List.cons_append,
    List.cons.injEq, and_true]
  constructor
  · rintro ⟨h0, h1, h2, h3⟩
    exact ⟨h3, h2, h1, h0⟩
  · rintro ⟨h0, h1, h2, h3⟩
    exact ⟨h3, h2, h1, h0⟩

/-- A byte survives. -/
theorem roundTrips_uInt8 (data : UInt8) : BufferType.uInt8.RoundTrips data := by
  have hput : ∀ buf pos, BufferType.uInt8.put buf pos data = pokeAll buf pos [data] := by
    intro buf pos
    simp [BufferType.put, putUInt8, pokeAll]
  have hget : ∀ pBuf : Buf, (∀ i < 1, pBuf i = [data][i]?) →
      BufferType.uInt8.get pBuf = some data := by
    intro pBuf hread
    simpa [BufferType.get, getUInt8] using hread 0 (by decide)
  exact (BufferType.roundTrips_iff_eq rfl hput hget).mpr rfl

/-- A `UInt16` survives when its bytes are equal. -/
theorem roundTrips_uInt16_iff (data : UInt16) :
    BufferType.uInt16.RoundTrips data ↔
      [hostByte16 data 0, hostByte16 data 1].reverse =
        [hostByte16 data 0, hostByte16 data 1] := by
  have hput : ∀ buf pos, BufferType.uInt16.put buf pos data =
      pokeAll buf pos [hostByte16 data 0, hostByte16 data 1] := by
    intro buf pos
    simp [BufferType.put, putUInt16, pokeAll]
  have hget : ∀ pBuf : Buf, (∀ i < 2, pBuf i = [hostByte16 data 0, hostByte16 data 1][i]?) →
      BufferType.uInt16.get pBuf =
        some ((hostByte16 data 0).toUInt16 <<< 8 ||| (hostByte16 data 1).toUInt16) := by
    intro pBuf hread
    simp [BufferType.get, getUInt16, hread 0 (by decide), hread 1 (by decide)]
  exact (BufferType.roundTrips_iff_eq rfl hput hget).trans (word_swapped_iff data)

/-- A `UInt32` survives when its bytes are the same in either order. -/
theorem roundTrips_uInt32_iff (data : UInt32) :
    BufferType.uInt32.RoundTrips data ↔
      [hostByte data 0, hostByte data 1, hostByte data 2, hostByte data 3].reverse =
        [hostByte data 0, hostByte data 1, hostByte data 2, hostByte data 3] := by
  have hput : ∀ buf pos, BufferType.uInt32.put buf pos data =
      pokeAll buf pos [hostByte data 0, hostByte data 1, hostByte data 2, hostByte data 3] := by
    intro buf pos
    simp [BufferType.put, putUInt32, pokeAll, Nat.add_assoc]
  have hget : ∀ pBuf : Buf, (∀ i < 4, pBuf i =
        [hostByte data 0, hostByte data 1, hostByte data 2, hostByte data 3][i]?) →
      BufferType.uInt32.get pBuf = some
        (bigEndian (hostByte data 0) (hostByte data 1) (hostByte data 2) (hostByte data 3)) := by
    intro pBuf hread
    simp [BufferType.get, getUInt32, bigEndian, hread 0 (by decide), hread 1 (by decide),
      hread 2 (by decide), hread 3 (by decide)]
  exact (BufferType.roundTrips_iff_eq rfl hput hget).trans (bigEndian_swapped_iff data)

/-- A `Float32` survives. -/
theorem roundTrips_float32 (data : UInt32) : BufferType.float32.RoundTrips data := by
  have hput : ∀ buf pos, BufferType.float32.put buf pos data =
      pokeAll buf pos [hostByte data 3, hostByte data 2, hostByte data 1, hostByte data 0] := by
    intro buf pos
    simp [BufferType.put, putFloat32, pokeAll, Nat.add_assoc]
  have hget : ∀ pBuf : Buf, (∀ i < 4, pBuf i =
        [hostByte data 3, hostByte data 2, hostByte data 1, hostByte data 0][i]?) →
      BufferType.float32.get pBuf = some
        (bigEndian (hostByte data 3) (hostByte data 2) (hostByte data 1) (hostByte data 0)) := by
    intro pBuf hread
    simp [BufferType.get, getFloat32, ← hostWord_eq_bigEndian, hread 0 (by decide),
      hread 1 (by decide), hread 2 (by decide), hread 3 (by decide)]
  exact (BufferType.roundTrips_iff_eq rfl hput hget).mpr (bigEndian_hostByte data)

/-- `putFloat64` leaves the last four bytes as they are, so that no eight bytes are written. -/
theorem not_roundTrips_float64 (data : UInt64) : ¬ BufferType.float64.RoundTrips data := by
  rintro ⟨bytes, -, htrip⟩
  obtain ⟨hzero, -⟩ := htrip [] [0, 0, 0, 0, 0, 0, 0, 0] [] rfl
  obtain ⟨hone, -⟩ := htrip [] [0, 0, 0, 0, 0, 0, 0, 1] [] rfl
  -- The last byte is the old one in either case.
  rw [← hone] at hzero
  simp [BufferType.put, putFloat64, poke] at hzero

/-- A signed integer does what the unsigned one with the same bits does. -/
theorem roundTrips_int8_iff (data : Int8) :
    BufferType.int8.RoundTrips data ↔ BufferType.uInt8.RoundTrips data.toUInt8 := by
  have hget (pBuf : Buf) : BufferType.int8.get pBuf = (getUInt8 pBuf).map UInt8.toInt8 := by
    cases h : pBuf 0 <;> simp [BufferType.get, getInt8, getUInt8, h]
  exact BufferType.roundTrips_of_inverse .int8 .uInt8 Int8.toInt8_toUInt8
    UInt8.toUInt8_toInt8 rfl (fun _ _ _ => rfl) hget data

@[inherit_doc roundTrips_int8_iff]
theorem roundTrips_int16_iff (data : Int16) :
    BufferType.int16.RoundTrips data ↔ BufferType.uInt16.RoundTrips data.toUInt16 := by
  have hget (pBuf : Buf) : BufferType.int16.get pBuf = (getUInt16 pBuf).map UInt16.toInt16 := by
    simp [BufferType.get, getInt16, getUInt16, Option.map_bind]
  exact BufferType.roundTrips_of_inverse .int16 .uInt16 Int16.toInt16_toUInt16
    UInt16.toUInt16_toInt16 rfl (fun _ _ _ => rfl) hget data

@[inherit_doc roundTrips_int8_iff]
theorem roundTrips_int32_iff (data : Int32) :
    BufferType.int32.RoundTrips data ↔ BufferType.uInt32.RoundTrips data.toUInt32 := by
  have hget (pBuf : Buf) : BufferType.int32.get pBuf = (getUInt32 pBuf).map UInt32.toInt32 := by
    simp [BufferType.get, getInt32, getUInt32, Option.map_bind]
  exact BufferType.roundTrips_of_inverse .int32 .uInt32 Int32.toInt32_toUInt32
    UInt32.toUInt32_toInt32 rfl (fun _ _ _ => rfl) hget data

/-- Which values survive a round trip through the functions of their type. -/
theorem roundTrips_iff_survives (type : BufferType) (data : type.Value) :
    type.RoundTrips data ↔ type.Survives data := by
  unfold BufferType.Survives
  cases type with
  | uInt8 => exact iff_of_true (roundTrips_uInt8 data) ⟨nofun, fun _ => rfl⟩
  | uInt16 =>
    rw [roundTrips_uInt16_iff]
    simp [BufferType.hostBytes]
  | uInt32 =>
    rw [roundTrips_uInt32_iff]
    simp [BufferType.hostBytes]
  | int8 =>
    have hbyte := (roundTrips_int8_iff data).mpr (roundTrips_uInt8 _)
    exact iff_of_true hbyte ⟨nofun, fun _ => rfl⟩
  | int16 =>
    rw [roundTrips_int16_iff, roundTrips_uInt16_iff]
    simp [BufferType.hostBytes]
  | int32 =>
    rw [roundTrips_int32_iff, roundTrips_uInt32_iff]
    simp [BufferType.hostBytes]
  | float32 => exact iff_of_true (roundTrips_float32 data) ⟨nofun, fun h => absurd rfl h⟩
  | float64 => exact iff_of_false (not_roundTrips_float64 data) fun h => h.1 rfl

/-- The `UInt16` 1 does not survive: its two bytes are written as `01 00` and read as 256. -/
theorem uInt16_one_lost : ¬ BufferType.uInt16.RoundTrips (1 : UInt16) := by
  rintro ⟨bytes, -, htrip⟩
  obtain ⟨hput, hget⟩ := htrip [] [0, 0] [] rfl
  have hbytes : bytes = [1, 0] := by
    have hwritten : BufferType.uInt16.put ([] ++ [0, 0] ++ []) 0 (1 : UInt16) = some [1, 0] := by
      decide
    simpa using hput.symm.trans hwritten
  subst hbytes
  exact absurd hget (by decide)

end Guillemot.Imu
