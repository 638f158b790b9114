import Mathlib.Data.UInt
import Mathlib.Tactic.Common
import Mathlib.Tactic.NormNum

/-!
# Byte buffers of the IMU package

`BufferUtils.cpp` reads and writes big-endian values through `UInt8` pointers. A pointer into memory
that is read is a partial function from the index to the byte (`Buf`): reading outside of the memory
that it points into is `none`, which the callers propagate. Memory that is written is a list of
bytes, and a write outside of it is undefined (`poke`).

A `Float32` is its 32-bit pattern and a `Float64` its 64-bit one. The host is little-endian, as the
byte accesses to floats through `(UInt8*)&data` assume.
-/

namespace Guillemot.Imu

/-- What a `UInt8*` points to: the byte at each index, or nothing outside of the memory. -/
abbrev Buf := ℕ → Option UInt8

namespace Buf

/-- A pointer into memory that is readable throughout. -/
def total (m : ℕ → UInt8) : Buf := fun i => some (m i)

/-- A pointer to `bound` bytes of the memory `m`. -/
def upTo (m : ℕ → UInt8) (bound : ℕ) : Buf := fun i => if i < bound then some (m i) else none

/-- A pointer to the bytes of a list. -/
def ofList (bytes : List UInt8) : Buf := fun i => bytes[i]?

/-- The pointer `&pBuf[k]`. -/
def offset (pBuf : Buf) (k : ℕ) : Buf := fun i => pBuf (k + i)

/-- The pointer `&pBuf[k]` for a signed index `k`; nothing can be read in front of `pBuf`. -/
def offsetInt (pBuf : Buf) (k : ℤ) : Buf := if 0 ≤ k then pBuf.offset k.toNat else fun _ => none

@[simp]
theorem total_apply (m : ℕ → UInt8) (i : ℕ) : total m i = some (m i) := rfl

@[simp]
theorem offset_apply (pBuf : Buf) (k i : ℕ) : pBuf.offset k i = pBuf (k + i) := rfl

@[simp]
theorem offset_total (m : ℕ → UInt8) (k : ℕ) : (total m).offset k = total fun i => m (k + i) := rfl

theorem offsetInt_of_nonneg (pBuf : Buf) {k : ℤ} (hk : 0 ≤ k) :
    pBuf.offsetInt k = pBuf.offset k.toNat := if_pos hk

/-- The bytes of a list are memory up to its length. -/
theorem ofList_eq_upTo (bytes : List UInt8) :
    ofList bytes = upTo (fun i => bytes.getD i 0) bytes.length := by
  funext i
  by_cases h : i < bytes.length
  · simp [ofList, upTo, h]
  · simp [ofList, upTo, h]

end Buf

/-- The conversion of an `Int32` to a `UInt8`, which keeps the low eight bits. -/
def toUInt8 (n : ℤ) : UInt8 := UInt8.ofNat (n % 256).toNat

/-- The conversion to a `UInt8` keeps a value that fits. -/
theorem toNat_toUInt8 (n : ℤ) : ((toUInt8 n).toNat : ℤ) = n % 256 := by
  have h0 : 0 ≤ n % 256 := Int.emod_nonneg n (by decide)
  have h1 : n % 256 < 256 := Int.emod_lt_of_pos n (by decide)
  simp only [toUInt8, UInt8.toNat_ofNat']
  omega

/-- A write through a pointer into `buf`; undefined outside of it. -/
def poke (buf : List UInt8) (i : ℕ) (data : UInt8) : Option (List UInt8) :=
  if i < buf.length then some (buf.set i data) else none

/-- The 32-bit value whose bytes in memory, in the host's order, are `b0` to `b3`. -/
def hostWord (b0 b1 b2 b3 : UInt8) : UInt32 :=
  b0.toUInt32 ||| b1.toUInt32 <<< 8 ||| b2.toUInt32 <<< 16 ||| b3.toUInt32 <<< 24

/-- The byte at index `i` of a 32-bit value in memory, in the host's order. -/
def hostByte (data : UInt32) (i : UInt32) : UInt8 := (data >>> (8 * i)).toUInt8

@[inherit_doc hostByte]
def hostByte16 (data : UInt16) (i : UInt16) : UInt8 := (data >>> (8 * i)).toUInt8

@[inherit_doc hostByte]
def hostByte64 (data : UInt64) (i : UInt64) : UInt8 := (data >>> (8 * i)).toUInt8

/-- The 64-bit value whose bytes in memory, in the host's order, are `b0` to `b7`. -/
def hostWord64 (b0 b1 b2 b3 b4 b5 b6 b7 : UInt8) : UInt64 :=
  b0.toUInt64 ||| b1.toUInt64 <<< 8 ||| b2.toUInt64 <<< 16 ||| b3.toUInt64 <<< 24 |||
    b4.toUInt64 <<< 32 ||| b5.toUInt64 <<< 40 ||| b6.toUInt64 <<< 48 ||| b7.toUInt64 <<< 56

/-- The 32-bit value that four bytes spell with the most significant first. -/
def bigEndian (b0 b1 b2 b3 : UInt8) : UInt32 :=
  b0.toUInt32 <<< 24 ||| b1.toUInt32 <<< 16 ||| b2.toUInt32 <<< 8 ||| b3.toUInt32

/-! ## The functions of `BufferUtils.cpp`

A function that writes does so at index `pos` of `buf`. A signed value is written and put together
in two's complement. -/

/-- `putUInt8`. -/
def putUInt8 (buf : List UInt8) (pos : ℕ) (data : UInt8) : Option (List UInt8) := poke buf pos data

/-- `getUInt8`. -/
def getUInt8 (pBuf : Buf) : Option UInt8 := pBuf 0

/-- `putUInt16`. -/
def putUInt16 (buf : List UInt8) (pos : ℕ) (data : UInt16) : Option (List UInt8) := do
  let buf ← poke buf pos (hostByte16 data 0)
  poke buf (pos + 1) (hostByte16 data 1)

/-- `getUInt16`. -/
def getUInt16 (pBuf : Buf) : Option UInt16 := do
  let b0 ← pBuf 0
  let b1 ← pBuf 1
  return b0.toUInt16 <<< 8 ||| b1.toUInt16

/-- `putUInt32`. -/
def putUInt32 (buf : List UInt8) (pos : ℕ) (data : UInt32) : Option (List UInt8) := do
  let buf ← poke buf pos (hostByte data 0)
  let buf ← poke buf (pos + 1) (hostByte data 1)
  let buf ← poke buf (pos + 2) (hostByte data 2)
  poke buf (pos + 3) (hostByte data 3)

/-- `getUInt32`. -/
def getUInt32 (pBuf : Buf) : Option UInt32 := do
  let b0 ← pBuf 0
  let b1 ← pBuf 1
  let b2 ← pBuf 2
  let b3 ← pBuf 3
  return b0.toUInt32 <<< 24 ||| b1.toUInt32 <<< 16 ||| b2.toUInt32 <<< 8 ||| b3.toUInt32

/-- `putInt8`. -/
def putInt8 (buf : List UInt8) (pos : ℕ) (data : Int8) : Option (List UInt8) :=
  poke buf pos data.toUInt8

/-- `getInt8`. -/
def getInt8 (pBuf : Buf) : Option Int8 := do
  let b0 ← pBuf 0
  return b0.toInt8

/-- `putInt16`. -/
def putInt16 (buf : List UInt8) (pos : ℕ) (data : Int16) : Option (List UInt8) := do
  let buf ← poke buf pos (hostByte16 data.toUInt16 0)
  poke buf (pos + 1) (hostByte16 data.toUInt16 1)

/-- `getInt16`. -/
def getInt16 (pBuf : Buf) : Option Int16 := do
  let b0 ← pBuf 0
  let b1 ← pBuf 1
  return (b0.toUInt16 <<< 8 ||| b1.toUInt16).toInt16

/-- `putInt32`. -/
def putInt32 (buf : List UInt8) (pos : ℕ) (data : Int32) : Option (List UInt8) := do
  let buf ← poke buf pos (hostByte data.toUInt32 0)
  let buf ← poke buf (pos + 1) (hostByte data.toUInt32 1)
  let buf ← poke buf (pos + 2) (hostByte data.toUInt32 2)
  poke buf (pos + 3) (hostByte data.toUInt32 3)

/-- `getInt32`. -/
def getInt32 (pBuf : Buf) : Option Int32 := do
  let b0 ← pBuf 0
  let b1 ← pBuf 1
  let b2 ← pBuf 2
  let b3 ← pBuf 3
  return (b0.toUInt32 <<< 24 ||| b1.toUInt32 <<< 16 ||| b2.toUInt32 <<< 8 ||| b3.toUInt32).toInt32

/-- `putFloat32`. -/
def putFloat32 (buf : List UInt8) (pos : ℕ) (data : UInt32) : Option (List UInt8) := do
  let buf ← poke buf pos (hostByte data 3)
  let buf ← poke buf (pos + 1) (hostByte data 2)
  let buf ← poke buf (pos + 2) (hostByte data 1)
  poke buf (pos + 3) (hostByte data 0)

/-- `getFloat32`. -/
def getFloat32 (pBuf : Buf) : Option UInt32 := do
  let b3 ← pBuf 3
  let b2 ← pBuf 2
  let b1 ← pBuf 1
  let b0 ← pBuf 0
  return hostWord b3 b2 b1 b0

/-- `putFloat64`, which has its last four indices from 0 again. -/
def putFloat64 (buf : List UInt8) (pos : ℕ) (data : UInt64) : Option (List UInt8) := do
  let buf ← poke buf pos (hostByte64 data 7)
  let buf ← poke buf (pos + 1) (hostByte64 data 6)
  let buf ← poke buf (pos + 2) (hostByte64 data 5)
  let buf ← poke buf (pos + 3) (hostByte64 data 4)
  let buf ← poke buf pos (hostByte64 data 3)
  let buf ← poke buf (pos + 1) (hostByte64 data 2)
  let buf ← poke buf (pos + 2) (hostByte64 data 1)
  poke buf (pos + 3) (hostByte64 data 0)

/-- `getFloat64`. -/
def getFloat64 (pBuf : Buf) : Option UInt64 := do
  let b7 ← pBuf 7
  let b6 ← pBuf 6
  let b5 ← pBuf 5
  let b4 ← pBuf 4
  let b3 ← pBuf 3
  let b2 ← pBuf 2
  let b1 ← pBuf 1
  let b0 ← pBuf 0
  return hostWord64 b7 b6 b5 b4 b3 b2 b1 b0

/-! ## Words and their bytes -/

/-- `getFloat32` reads a big-endian value. -/
theorem hostWord_eq_bigEndian (b0 b1 b2 b3 : UInt8) :
    hostWord b3 b2 b1 b0 = bigEndian b0 b1 b2 b3 := by
  unfold hostWord bigEndian
  -- Both are the same four shifted bytes, in opposite orders.
  generalize b0.toUInt32 <<< 24 = w0, b1.toUInt32 <<< 16 = w1, b2.toUInt32 <<< 8 = w2,
    b3.toUInt32 = w3
  ac_rfl

/-- The value of a four-byte word in terms of its bytes. -/
theorem toNat_bigEndian (b0 b1 b2 b3 : UInt8) :
    (bigEndian b0 b1 b2 b3).toNat =
      2 ^ 24 * b0.toNat + 2 ^ 16 * b1.toNat + 2 ^ 8 * b2.toNat + b3.toNat := by
  have h0 := b0.toNat_lt
  have h1 := b1.toNat_lt
  have h2 := b2.toNat_lt
  have h3 := b3.toNat_lt
  have hshift : ∀ (b : UInt8) (k : ℕ), k ≤ 24 → b.toNat <<< k % 2 ^ 32 = 2 ^ k * b.toNat := by
    intro b k hk
    have hb := b.toNat_lt
    have hpow : 2 ^ k ≤ 2 ^ 24 := Nat.pow_le_pow_right (by norm_num) hk
    rw [Nat.shiftLeft_eq, mul_comm]
    refine Nat.mod_eq_of_lt ?_
    calc 2 ^ k * b.toNat ≤ 2 ^ 24 * 255 := Nat.mul_le_mul hpow (by omega)
      _ < 2 ^ 32 := by norm_num
  -- Each byte fills the bits that the ones before it leave free.
  have hor : ∀ {k : ℕ} (a : ℕ) {r : ℕ}, r < 2 ^ k → 2 ^ k * a ||| r = 2 ^ k * a + r := by
    intro k a r hr
    exact (Nat.two_pow_add_eq_or_of_lt hr a).symm
  simp only [bigEndian, UInt32.toNat_or, UInt32.toNat_shiftLeft, UInt8.toNat_toUInt32]
  rw [show (24 : UInt32).toNat % 32 = 24 from rfl, show (16 : UInt32).toNat % 32 = 16 from rfl,
    show (8 : UInt32).toNat % 32 = 8 from rfl, hshift b0 24 le_rfl, hshift b1 16 (by norm_num),
    hshift b2 8 (by norm_num), Nat.or_assoc, Nat.or_assoc, hor b2.toNat (by omega),
    hor b1.toNat (by omega), hor b0.toNat (by omega)]
  omega

/-- The bytes of a word. -/
theorem toNat_hostByte (data i : UInt32) (hi : i.toNat < 4) :
    (hostByte data i).toNat = data.toNat / 2 ^ (8 * i.toNat) % 256 := by
  have hmul : (8 * i).toNat = 8 * i.toNat := by
    rw [UInt32.toNat_mul, show (8 : UInt32).toNat = 8 from rfl, Nat.mod_eq_of_lt (by omega)]
  rw [hostByte, UInt32.toNat_toUInt8, UInt32.toNat_shiftRight, hmul, Nat.shiftRight_eq_div_pow,
    Nat.mod_eq_of_lt (by omega : 8 * i.toNat < 32)]

/-- A word is put together from its bytes again. -/
theorem bigEndian_hostByte (data : UInt32) :
    bigEndian (hostByte data 3) (hostByte data 2) (hostByte data 1) (hostByte data 0) = data := by
  have hdata := data.toNat_lt
  rw [← UInt32.toNat_inj, toNat_bigEndian, toNat_hostByte data 3 (by decide),
    toNat_hostByte data 2 (by decide), toNat_hostByte data 1 (by decide),
    toNat_hostByte data 0 (by decide)]
  simp only [UInt32.reduceToNat]
  omega

/-- Words are equal when their bytes are. -/
theorem bigEndian_inj {a b c d a' b' c' d' : UInt8} :
    bigEndian a b c d = bigEndian a' b' c' d' ↔ a = a' ∧ b = b' ∧ c = c' ∧ d = d' := by
  constructor
  · intro h
    have hn := congrArg UInt32.toNat h
    rw [toNat_bigEndian, toNat_bigEndian] at hn
    have := b.toNat_lt
    have := c.toNat_lt
    have := d.toNat_lt
    have := b'.toNat_lt
    have := c'.toNat_lt
    have := d'.toNat_lt
    exact ⟨UInt8.toNat_inj.mp (by omega), UInt8.toNat_inj.mp (by omega),
      UInt8.toNat_inj.mp (by omega), UInt8.toNat_inj.mp (by omega)⟩
  · rintro ⟨rfl, rfl, rfl, rfl⟩
    rfl

/-- The value of a two-byte word in terms of its bytes. -/
theorem toNat_word (hi lo : UInt8) :
    (hi.toUInt16 <<< 8 ||| lo.toUInt16).toNat = 256 * hi.toNat + lo.toNat := by
  have h1 := hi.toNat_lt
  have h2 := lo.toNat_lt
  have hshift : hi.toNat <<< 8 % 65536 = 256 * hi.toNat := by
    rw [Nat.shiftLeft_eq]
    omega
  have hand : (8 : UInt16).toNat % 16 = 8 := rfl
  -- The high byte leaves the low eight bits free, so that the `|||` is a sum.
  simp only [UInt16.toNat_or, UInt16.toNat_shiftLeft, UInt8.toNat_toUInt16, hand]
  rw [show (2 : ℕ) ^ 16 = 65536 by norm_num, hshift, show 256 = 2 ^ 8 by norm_num,
    Nat.two_pow_add_eq_or_of_lt h2]

/-- Two-byte words are equal when their bytes are. -/
theorem word_inj {a b c d : UInt8} :
    a.toUInt16 <<< 8 ||| b.toUInt16 = c.toUInt16 <<< 8 ||| d.toUInt16 ↔ a = c ∧ b = d := by
  constructor
  · intro h
    have hn := congrArg UInt16.toNat h
    rw [toNat_word, toNat_word] at hn
    have := b.toNat_lt
    have := d.toNat_lt
    exact ⟨UInt8.toNat_inj.mp (by omega), UInt8.toNat_inj.mp (by omega)⟩
  · rintro ⟨rfl, rfl⟩
    rfl

end Guillemot.Imu
