import Guillemot.Library.Circular
import Mathlib.Algebra.Group.Nat.Defs

/-!
# The ring buffer of the packet library

The functions of `ring_buffer.c`. `entries` is the memory behind the pointer of the buffer, by byte,
and all the numbers are `u32`, so that sums and products are taken modulo `2 ^ 32`.

`contents` is what the buffer holds, oldest entry first, and each function has one lemma about what
it does to the contents. They need `Valid`, which `initStatic` establishes when the places of the
bytes, and twice the number of the entries, are below `2 ^ 32`.
-/

namespace Guillemot.Mip

open Circular

/-- A number in 32 bits. -/
def u32 (n : ℕ) : ℕ := n % 2 ^ 32

theorem u32_of_lt {n : ℕ} (h : n < 2 ^ 32) : u32 n = n := Nat.mod_eq_of_lt h

theorem u32_add (m n : ℕ) : u32 (u32 m + n) = u32 (m + n) := Nat.mod_add_mod m _ n

/-- `RING_BUFFER_OK` and what else the functions return. -/
inductive Code where
  | ok
  | error
  | memoryError
  | empty
  | full
deriving DecidableEq, Repr

/-- `ring_buffer`. -/
structure RingBuffer where
  initialized : Bool
  entries : ℕ → UInt8
  maxEntries : ℕ
  entrySize : ℕ
  position : ℕ
  currentCount : ℕ
  totalEntriesWritten : ℕ
  totalEntriesRead : ℕ
  totalOverruns : ℕ

namespace RingBuffer

/-- `ring_buffer_init_static`, with `__ring_buffer_reset`. -/
def initStatic (dataBufferPtr : ℕ → UInt8) (maxEntries entrySize : ℕ) : RingBuffer where
  initialized := true
  entries := dataBufferPtr
  maxEntries := maxEntries
  entrySize := entrySize
  position := 0
  currentCount := 0
  totalEntriesWritten := 0
  totalEntriesRead := 0
  totalOverruns := 0

variable (b : RingBuffer)

/-! ## Parts of the functions -/

/-- The bytes of the entry at a place. -/
def entryAt (pos : ℕ) : List UInt8 :=
  (List.range b.entrySize).map fun j => b.entries (u32 (pos * b.entrySize + j))

/-- Bytes are copied to the entry at a place, from its byte `i` on. -/
def fillFrom (size pos : ℕ) : ℕ → List UInt8 → (ℕ → UInt8) → (ℕ → UInt8)
  | _, [], m => m
  | i, x :: xs, m => fillFrom size pos (i + 1) xs (Function.update m (u32 (pos * size + i)) x)

/-- The place of the next entry that is written. -/
def writePos : ℕ := wrap b.maxEntries (u32 (b.position + b.currentCount))

/-- Bytes are copied to the next entry. -/
def fill (entry : List UInt8) : RingBuffer :=
  { b with entries := fillFrom b.entrySize b.writePos 0 entry b.entries }

/-- The next entry counts as written. -/
def written : RingBuffer :=
  { b with
    currentCount := u32 (b.currentCount + 1)
    totalEntriesWritten := u32 (b.totalEntriesWritten + 1) }

/-- The first entry counts as read. -/
def popped : RingBuffer :=
  { b with
    position := wrap b.maxEntries (u32 (b.position + 1))
    currentCount := b.currentCount - 1
    totalEntriesRead := u32 (b.totalEntriesRead + 1) }

/-! ## The functions -/

/-- `ring_buffer_count`. -/
def count : ℕ := if b.initialized then b.currentCount else 0

/-- `ring_buffer_remaining_entries`. -/
def remainingEntries : ℕ := if b.initialized then b.maxEntries - b.currentCount else 0

/-- `ring_buffer_flush`. -/
def flush : Code × RingBuffer :=
  if b.initialized then (.ok, { b with position := 0, currentCount := 0 }) else (.error, b)

/-- `ring_buffer_write`. -/
def write (entry : List UInt8) : Code × RingBuffer :=
  if b.maxEntries ≤ b.currentCount then
    (.full, { b with totalOverruns := u32 (b.totalOverruns + 1) })
  else if entry.length = 0 then (.ok, b)
  else if b.entrySize < entry.length then (.memoryError, b)
  else (.ok, (b.fill entry).written)

/-- The loop of `ring_buffer_write_multi`, over the entries that are left. -/
def writeEntries : List (List UInt8) → RingBuffer → Code × ℕ × RingBuffer
  | [], b => (.ok, 0, b)
  | entry :: rest, b =>
    if b.maxEntries ≤ b.currentCount then
      (.full, 0, { b with totalOverruns := u32 (b.totalOverruns + (rest.length + 1)) })
    else
      let (code, numWritten, b) := writeEntries rest (b.fill entry).written
      (code, numWritten + 1, b)

/-- The entries of a data buffer. -/
def entriesOf (entrySize : ℕ) (entryBuff : ℕ → UInt8) (numEntries : ℕ) : List (List UInt8) :=
  (List.range numEntries).map fun i =>
    (List.range entrySize).map fun j => entryBuff (u32 (i * entrySize + j))

/-- `ring_buffer_write_multi`, with the number of the entries that were written. -/
def writeMulti (entryBuff : ℕ → UInt8) (numEntries : ℕ) : Code × ℕ × RingBuffer :=
  writeEntries (entriesOf b.entrySize entryBuff numEntries) b

/-- `ring_buffer_read`, with the bytes that it copies. -/
def read : Code × List UInt8 × RingBuffer :=
  if b.currentCount = 0 then (.empty, [], b)
  else (.ok, b.entryAt b.position, b.popped)

/-- `ring_buffer_lookahead_read`. -/
def lookaheadRead (offset maxBytes : ℕ) : Code × List UInt8 :=
  if b.initialized then
    if b.currentCount = 0 then (.empty, [])
    else if maxBytes < b.entrySize then (.memoryError, [])
    else if b.currentCount ≤ offset then (.error, [])
    else (.ok, b.entryAt (wrap b.maxEntries (u32 (b.position + offset))))
  else (.error, [])

/-- The loop of `ring_buffer_read_multi`, for so many more entries. -/
def readEntries : ℕ → RingBuffer → Code × List (List UInt8) × RingBuffer
  | 0, b => (.ok, [], b)
  | n + 1, b =>
    if b.currentCount = 0 then (.empty, [], b)
    else
      let (code, rest, b') := readEntries n b.popped
      (code, b.entryAt b.position :: rest, b')

/-- `ring_buffer_read_multi`, with the entries that it copies to the data buffer. -/
def readMulti (entryBuffSize numRequested : ℕ) : Code × List (List UInt8) × RingBuffer :=
  if entryBuffSize < u32 (numRequested * b.entrySize) then (.memoryError, [], b)
  else readEntries numRequested b

/-- `ring_buffer_lookahead_read_multi`. -/
def lookaheadReadMulti (offset entryBuffSize numRequested : ℕ) : Code × List (List UInt8) :=
  if b.initialized then
    if b.currentCount = 0 then (.empty, [])
    else if entryBuffSize < u32 (numRequested * b.entrySize) then (.memoryError, [])
    else if b.currentCount < u32 (offset + numRequested) then (.error, [])
    else
      (.ok, (List.range numRequested).map fun i =>
        b.entryAt (wrap b.maxEntries (u32 (b.position + offset + i))))
  else (.error, [])

/-- `ring_buffer_consume_entries`, which returns a `u16`. -/
def consumeEntries (numEntries : ℕ) : ℕ × RingBuffer :=
  let numConsume := if b.currentCount < numEntries then b.currentCount else numEntries
  (numConsume % 2 ^ 16,
    { b with
      position := wrap b.maxEntries (u32 (b.position + numConsume))
      currentCount := b.currentCount - numConsume
      totalEntriesRead := u32 (b.totalEntriesRead + numConsume) })

/-- `ring_buffer_remove_first_element`. -/
def removeFirstElement : Code × RingBuffer :=
  if b.initialized then
    if b.currentCount = 0 then (.empty, b) else (.ok, b.popped)
  else (.error, b)

/-- `ring_buffer_get_available_element_ptr`, as the place of a byte. -/
def getAvailableElementPtr : Option ℕ :=
  if b.initialized then
    if b.maxEntries ≤ b.currentCount then none else some (u32 (b.writePos * b.entrySize))
  else none

/-- `ring_buffer_increment_count`. -/
def incrementCount : Code × RingBuffer :=
  if b.initialized then
    if b.maxEntries ≤ b.currentCount then (.full, b) else (.ok, b.written)
  else (.error, b)

/-- The loop of `ring_buffer_copy`, for so many more entries. -/
def copyEntries : ℕ → RingBuffer → RingBuffer → ℕ × RingBuffer × RingBuffer
  | 0, dst, src => (0, dst, src)
  | n + 1, dst, src =>
    if src.currentCount = 0 then (0, dst, src)
    else if dst.maxEntries ≤ dst.currentCount then (0, dst, src)
    else
      let (numCopied, dst, src) :=
        copyEntries n (dst.fill (src.entryAt src.position)).written src.popped
      (numCopied + 1, dst, src)

/-- `ring_buffer_copy` from `src` to `dst`. -/
def copy (dst src : RingBuffer) (numEntries : ℕ) : ℕ × RingBuffer × RingBuffer :=
  if src.entrySize ≠ dst.entrySize then (0, dst, src) else copyEntries numEntries dst src

/-- The loop of `ring_buffer_lookahead_copy`, for so many more entries from the place `i` on. -/
def lookaheadCopyEntries (src : RingBuffer) (offset : ℕ) :
    ℕ → ℕ → RingBuffer → ℕ × RingBuffer
  | 0, i, dst => (i, dst)
  | n + 1, i, dst =>
    if src.currentCount = 0 then (i, dst)
    else if dst.maxEntries ≤ dst.currentCount then (i, dst)
    else
      let entry := src.entryAt (wrap src.maxEntries (u32 (src.position + offset + i)))
      lookaheadCopyEntries src offset n (i + 1) (dst.fill entry).written

/-- `ring_buffer_lookahead_copy`. -/
def lookaheadCopy (dst : RingBuffer) (offset : ℕ) (src : RingBuffer) (numEntries : ℕ) :
    ℕ × RingBuffer :=
  if dst.initialized ∧ src.initialized then
    if src.entrySize ≠ dst.entrySize then (0, dst)
    else if src.count < u32 (numEntries + offset) then (0, dst)
    else lookaheadCopyEntries src offset numEntries 0 dst
  else (0, dst)

/-! ## What a buffer holds -/

/-- The entries that are in the buffer, the oldest first. -/
def contents : List (List UInt8) :=
  window b.entryAt b.maxEntries b.position b.currentCount

/-- The buffer works: it is initialized, its place and its count are within its size, and no place
that it computes leaves 32 bits. -/
structure Valid : Prop where
  ready : b.initialized = true
  twice : 2 * b.maxEntries ≤ 2 ^ 32
  bytes : b.maxEntries * b.entrySize ≤ 2 ^ 32
  placed : b.position < max 1 b.maxEntries
  bounded : b.currentCount ≤ b.maxEntries

variable {b} {entry : List UInt8} {pos i j n : ℕ}

theorem valid_initStatic {m : ℕ → UInt8} {maxEntries entrySize : ℕ}
    (h2 : 2 * maxEntries ≤ 2 ^ 32) (hb : maxEntries * entrySize ≤ 2 ^ 32) :
    (initStatic m maxEntries entrySize).Valid where
  ready := rfl
  twice := h2
  bytes := hb
  placed := Nat.lt_of_lt_of_le Nat.zero_lt_one (Nat.le_max_left 1 maxEntries)
  bounded := Nat.zero_le _

@[simp] theorem length_contents : b.contents.length = b.currentCount := length_window

theorem getElem_contents (h : i < b.contents.length) :
    b.contents[i] = b.entryAt (wrap b.maxEntries (b.position + i)) :=
  getElem_window h

@[simp] theorem length_entryAt : (b.entryAt pos).length = b.entrySize := by simp [entryAt]

theorem getElem_entryAt {b : RingBuffer} {i j : ℕ} (hj : j < (b.entryAt i).length) :
    (b.entryAt i)[j] = b.entries (u32 (i * b.entrySize + j)) := by simp [entryAt]

theorem Valid.position_lt (h : b.Valid) (hpos : 0 < b.maxEntries) :
    b.position < b.maxEntries := by
  have hplaced := h.placed
  rwa [Nat.max_eq_right hpos] at hplaced

/-- A sum that is wrapped is not cut off. -/
theorem Valid.u32_position (h : b.Valid) (hpos : 0 < b.maxEntries) (hn : n ≤ b.maxEntries) :
    u32 (b.position + n) = b.position + n := by
  have hlt := h.position_lt hpos
  have htwice := h.twice
  exact u32_of_lt (by omega)

/-- The place of a byte is not cut off, nor is it outside of the buffer. -/
theorem byte_lt (hpos : pos < b.maxEntries) (hj : j < b.entrySize) :
    pos * b.entrySize + j < b.maxEntries * b.entrySize := by
  calc pos * b.entrySize + j < pos * b.entrySize + b.entrySize := Nat.add_lt_add_left hj _
    _ = (pos + 1) * b.entrySize := (Nat.succ_mul pos b.entrySize).symm
    _ ≤ b.maxEntries * b.entrySize := Nat.mul_le_mul_right _ hpos

theorem Valid.u32_byte (h : b.Valid) (hpos : pos < b.maxEntries) (hj : j < b.entrySize) :
    u32 (pos * b.entrySize + j) = pos * b.entrySize + j :=
  u32_of_lt (Nat.lt_of_lt_of_le (byte_lt hpos hj) h.bytes)

/-! ## Filling an entry -/

/-- The bytes of another place stay. -/
theorem fillFrom_of_ne {size a : ℕ} {xs : List UInt8} {m : ℕ → UInt8}
    (h : ∀ k, i ≤ k → k < i + xs.length → a ≠ u32 (pos * size + k)) :
    fillFrom size pos i xs m a = m a := by
  induction xs generalizing i m with
  | nil => rfl
  | cons x xs ih =>
    rw [List.length_cons] at h
    unfold fillFrom
    rw [ih fun k hk hlt => h k (by omega) (by omega)]
    exact Function.update_of_ne (h i (Nat.le_refl i) (by omega)) _ _

/-- The bytes that are copied. -/
theorem fillFrom_of_eq {size k : ℕ} {xs : List UInt8} {m : ℕ → UInt8}
    (hsmall : pos * size + (i + xs.length) ≤ 2 ^ 32) (hk : k < xs.length) :
    fillFrom size pos i xs m (pos * size + (i + k)) = xs[k] := by
  induction xs generalizing i k m with
  | nil => cases hk
  | cons x xs ih =>
    rw [List.length_cons] at hsmall hk
    unfold fillFrom
    cases k with
    | zero =>
      rw [fillFrom_of_ne fun k hle hlt => ?_]
      · rw [u32_of_lt (by omega)]
        exact Function.update_self _ _ _
      · rw [u32_of_lt (by omega)]
        omega
    | succ k =>
      rw [show i + (k + 1) = i + 1 + k by omega, ih (by omega) (by omega)]
      rfl

theorem Valid.writePos_eq (h : b.Valid) (hroom : b.currentCount < b.maxEntries) :
    b.writePos = wrap b.maxEntries (b.position + b.currentCount) := by
  unfold writePos
  rw [h.u32_position (by omega) (by omega)]

theorem Valid.writePos_lt (h : b.Valid) (hroom : b.currentCount < b.maxEntries) :
    b.writePos < b.maxEntries := by
  have hpos := h.position_lt (by omega)
  rw [h.writePos_eq hroom]
  exact wrap_lt (by omega)

/-- The bytes outside of the buffer are not touched. -/
theorem Valid.fill_outside {a : ℕ} (h : b.Valid) (hroom : b.currentCount < b.maxEntries)
    (hlen : entry.length ≤ b.entrySize) (ha : b.maxEntries * b.entrySize ≤ a) :
    (b.fill entry).entries a = b.entries a := by
  have hlt := h.writePos_lt hroom
  refine fillFrom_of_ne fun k _ hk => ?_
  have hbyte := byte_lt (b := b) hlt (j := k) (by omega)
  rw [h.u32_byte hlt (by omega)]
  omega

/-- The other entries stay. -/
theorem Valid.entryAt_fill_of_ne (h : b.Valid) (hroom : b.currentCount < b.maxEntries)
    (hlen : entry.length ≤ b.entrySize) (hpos : pos < b.maxEntries) (hne : pos ≠ b.writePos) :
    (b.fill entry).entryAt pos = b.entryAt pos := by
  have hlt := h.writePos_lt hroom
  refine List.map_congr_left fun j hj => ?_
  replace hj : j < b.entrySize := List.mem_range.mp hj
  refine fillFrom_of_ne fun k _ hk => ?_
  show u32 (pos * b.entrySize + j) ≠ u32 (b.writePos * b.entrySize + k)
  rw [h.u32_byte hpos hj, h.u32_byte hlt (by omega)]
  intro heq
  -- Both bytes tell the entry that they are in.
  have hdiv := congrArg (· / b.entrySize) heq
  have hsize : 0 < b.entrySize := by omega
  simp only [Nat.mul_comm _ b.entrySize, Nat.mul_add_div hsize, Nat.div_eq_of_lt hj,
    Nat.div_eq_of_lt (show k < b.entrySize by omega), Nat.add_zero] at hdiv
  exact hne hdiv

/-- The entry that is filled starts with the bytes, and ends with what was there. -/
theorem Valid.entryAt_fill_self (h : b.Valid) (hroom : b.currentCount < b.maxEntries)
    (hlen : entry.length ≤ b.entrySize) :
    (b.fill entry).entryAt b.writePos =
      entry ++ (b.entryAt b.writePos).drop entry.length := by
  have hlt := h.writePos_lt hroom
  apply List.ext_getElem
  · rw [length_entryAt, List.length_append, List.length_drop, length_entryAt]
    show b.entrySize = _
    omega
  · intro j hj hj'
    have hlen := hj
    rw [length_entryAt] at hj
    replace hj : j < b.entrySize := hj
    have hbyte := byte_lt (b := b) hlt hj
    have hbytes := h.bytes
    have hget : ((b.fill entry).entryAt b.writePos)[j] =
        (b.fill entry).entries (b.writePos * b.entrySize + j) := by
      rw [getElem_entryAt hlen]
      exact congrArg _ (h.u32_byte hlt hj)
    rw [hget]
    rcases Nat.lt_or_ge j entry.length with hin | hout
    · rw [List.getElem_append_left hin]
      have hlast := byte_lt (b := b) hlt (j := entry.length - 1) (by omega)
      have heq : fillFrom b.entrySize b.writePos 0 entry b.entries
          (b.writePos * b.entrySize + (0 + j)) = entry[j] := fillFrom_of_eq (by omega) hin
      rwa [Nat.zero_add] at heq
    · have hold : (b.fill entry).entries (b.writePos * b.entrySize + j) =
          b.entries (b.writePos * b.entrySize + j) := by
        refine fillFrom_of_ne fun k _ hk => ?_
        rw [h.u32_byte hlt (by omega)]
        omega
      rw [hold, List.getElem_append_right hout, List.getElem_drop]
      unfold entryAt
      rw [List.getElem_map, List.getElem_range, Nat.add_sub_cancel' hout, h.u32_byte hlt hj]

/-! ## What the functions do to the contents -/

/-- An entry is written behind the others; when it is too short, it ends with what was in its
place. -/
theorem Valid.contents_fill_written (h : b.Valid) (hroom : b.currentCount < b.maxEntries)
    (hlen : entry.length ≤ b.entrySize) :
    (b.fill entry).written.contents =
      b.contents ++ [entry ++ (b.entryAt b.writePos).drop entry.length] := by
  have hpos := h.position_lt (by omega)
  have hcount : u32 (b.currentCount + 1) = b.currentCount + 1 := by
    have htwice := h.twice
    exact u32_of_lt (by omega)
  have hwindow : window (b.fill entry).entryAt b.maxEntries b.position (b.currentCount + 1) =
      window b.entryAt b.maxEntries b.position b.currentCount ++
        [(b.fill entry).entryAt (wrap b.maxEntries (b.position + b.currentCount))] :=
    window_concat hpos hroom fun i hi hne =>
      h.entryAt_fill_of_ne hroom hlen hi (by rwa [h.writePos_eq hroom])
  rw [← h.writePos_eq hroom, h.entryAt_fill_self hroom hlen] at hwindow
  rw [← hcount] at hwindow
  exact hwindow

/-- A whole entry is written behind the others. -/
theorem Valid.contents_fill_whole (h : b.Valid) (hroom : b.currentCount < b.maxEntries)
    (hlen : entry.length = b.entrySize) :
    (b.fill entry).written.contents = b.contents ++ [entry] := by
  rw [h.contents_fill_written hroom (Nat.le_of_eq hlen), hlen,
    List.drop_of_length_le (Nat.le_of_eq length_entryAt), List.append_nil]

theorem Valid.currentCount_written (h : b.Valid) (hroom : b.currentCount < b.maxEntries) :
    (b.fill entry).written.currentCount = b.currentCount + 1 := by
  have htwice := h.twice
  exact u32_of_lt (n := b.currentCount + 1) (by omega)

theorem Valid.fill_written (h : b.Valid) (hroom : b.currentCount < b.maxEntries) :
    (b.fill entry).written.Valid where
  ready := h.ready
  twice := h.twice
  bytes := h.bytes
  placed := h.placed
  bounded := by
    rw [h.currentCount_written hroom]
    exact hroom

/-- Some entries are taken off the front. -/
theorem Valid.contents_drop (h : b.Valid) (hn : n ≤ b.currentCount) {read : ℕ} :
    ({ b with
        position := wrap b.maxEntries (u32 (b.position + n))
        currentCount := b.currentCount - n
        totalEntriesRead := read } : RingBuffer).contents = b.contents.drop n := by
  rcases Nat.eq_zero_or_pos b.maxEntries with hzero | hpos
  · have hcount : b.currentCount = 0 := by
      have hle := h.bounded
      omega
    simp [contents, hcount]
  · have hle := h.bounded
    unfold contents
    rw [drop_window (h.position_lt hpos) hle hn]
    show window b.entryAt _ (wrap _ (u32 _)) _ = _
    rw [h.u32_position hpos (by omega)]

theorem Valid.drop (h : b.Valid) (hn : n ≤ b.currentCount) {read : ℕ} :
    ({ b with
        position := wrap b.maxEntries (u32 (b.position + n))
        currentCount := b.currentCount - n
        totalEntriesRead := read } : RingBuffer).Valid where
  ready := h.ready
  twice := h.twice
  bytes := h.bytes
  placed := by
    show wrap b.maxEntries (u32 (b.position + n)) < max 1 b.maxEntries
    have hle := h.bounded
    have hplaced := h.placed
    rcases Nat.eq_zero_or_pos b.maxEntries with hzero | hpos
    · rw [hzero] at hplaced ⊢
      have hsum : b.position + n = 0 := by omega
      rw [hsum]
      decide
    · rw [h.u32_position hpos (by omega), Nat.max_eq_right hpos]
      rw [Nat.max_eq_right hpos] at hplaced
      exact wrap_lt (by omega)
  bounded := Nat.le_trans (Nat.sub_le _ _) h.bounded

theorem Valid.popped (h : b.Valid) (hcount : b.currentCount ≠ 0) : b.popped.Valid :=
  h.drop (Nat.pos_of_ne_zero hcount)

theorem Valid.contents_popped (h : b.Valid) (hcount : b.currentCount ≠ 0) :
    b.contents = b.entryAt b.position :: b.popped.contents := by
  have hle := h.bounded
  have hdrop : b.popped.contents = b.contents.drop 1 :=
    h.contents_drop (Nat.pos_of_ne_zero hcount)
  have hlt : 0 < b.contents.length := by rw [length_contents]; omega
  have hhead : b.contents[0] = b.entryAt b.position := by
    rw [getElem_contents, Nat.add_zero, wrap_of_lt (h.position_lt (by omega))]
  rw [hdrop, ← hhead]
  exact List.drop_eq_getElem_cons hlt

/-- An entry that is there is seen without being read. -/
theorem Valid.lookaheadRead_eq {offset maxBytes : ℕ} (h : b.Valid)
    (hoffset : offset < b.contents.length) (hsize : b.entrySize ≤ maxBytes) :
    b.lookaheadRead offset maxBytes = (.ok, b.contents[offset]) := by
  have hcount := hoffset
  rw [length_contents] at hcount
  have hle := h.bounded
  unfold lookaheadRead
  rw [if_pos h.ready, if_neg (by omega), if_neg (by omega), if_neg (by omega),
    h.u32_position (by omega) (by omega), getElem_contents]

/-- Some entries that are there are seen without being read. -/
theorem Valid.lookaheadReadMulti_eq {offset size : ℕ} (h : b.Valid) (hcount : b.currentCount ≠ 0)
    (hsum : offset + n ≤ b.currentCount) (hsize : n * b.entrySize ≤ size) :
    b.lookaheadReadMulti offset size n = (.ok, (b.contents.drop offset).take n) := by
  have hle := h.bounded
  have htwice := h.twice
  have hpos := h.position_lt (by omega)
  have hproduct : u32 (n * b.entrySize) ≤ size := Nat.le_trans (Nat.mod_le _ _) hsize
  have hentries : (List.range n).map (fun i =>
      b.entryAt (wrap b.maxEntries (u32 (b.position + offset + i)))) =
      (b.contents.drop offset).take n := by
    unfold contents
    rw [drop_window hpos hle (by omega), take_window (by omega)]
    refine List.map_congr_left fun i hi => ?_
    replace hi : i < n := List.mem_range.mp hi
    rw [wrap_wrap_add hpos (by omega), Nat.add_assoc, h.u32_position (by omega) (by omega)]
  unfold lookaheadReadMulti
  rw [if_pos h.ready, if_neg hcount, if_neg (by omega), u32_of_lt (n := offset + n) (by omega),
    if_neg (by omega), hentries]

/-- `ring_buffer_consume_entries` drops entries, as many as there are. -/
theorem Valid.contents_consumeEntries (h : b.Valid) (n : ℕ) :
    (b.consumeEntries n).2.contents = b.contents.drop n := by
  have hlen : b.contents.length = b.currentCount := length_contents
  unfold consumeEntries
  split_ifs with hn
  · rw [List.drop_of_length_le (i := n) (by omega), ← List.drop_of_length_le (Nat.le_of_eq hlen)]
    exact h.contents_drop (Nat.le_refl _)
  · exact h.contents_drop (Nat.not_lt.mp hn)

theorem Valid.consumeEntries (h : b.Valid) (n : ℕ) : (b.consumeEntries n).2.Valid := by
  unfold RingBuffer.consumeEntries
  split_ifs with hn
  · exact h.drop (Nat.le_refl _)
  · exact h.drop (Nat.not_lt.mp hn)

/-! ## From one buffer to another -/

variable {dst src : RingBuffer}

/-- As many entries as are asked for, are there and have room. -/
def copied (dst src : RingBuffer) (n : ℕ) : ℕ :=
  min n (min src.currentCount (dst.maxEntries - dst.currentCount))

theorem copyEntries_eq (n : ℕ) (hd : dst.Valid) (hs : src.Valid)
    (hsize : src.entrySize = dst.entrySize) :
    (copyEntries n dst src).1 = copied dst src n ∧
      (copyEntries n dst src).2.1.Valid ∧ (copyEntries n dst src).2.2.Valid ∧
      (copyEntries n dst src).2.1.contents =
        dst.contents ++ src.contents.take (copied dst src n) ∧
      (copyEntries n dst src).2.2.contents = src.contents.drop (copied dst src n) := by
  induction n generalizing dst src with
  | zero => simp [copyEntries, copied, hd, hs]
  | succ n ih =>
    unfold copyEntries
    by_cases hempty : src.currentCount = 0
    · have hnone : copied dst src (n + 1) = 0 := by unfold copied; omega
      rw [if_pos hempty, hnone]
      simp [hd, hs]
    rw [if_neg hempty]
    rcases Nat.lt_or_ge dst.currentCount dst.maxEntries with hroom | hfull
    · have hlen : (src.entryAt src.position).length = dst.entrySize := by
        rw [length_entryAt, hsize]
      have hone : copied dst src (n + 1) =
          copied (dst.fill (src.entryAt src.position)).written src.popped n + 1 := by
        unfold copied
        rw [hd.currentCount_written hroom]
        show _ = min n (min (src.currentCount - 1) (dst.maxEntries - _)) + 1
        omega
      obtain ⟨h1, h2, h3, h4, h5⟩ := ih (hd.fill_written hroom) (hs.popped hempty) hsize
      rw [hd.contents_fill_whole hroom hlen] at h4
      rw [if_neg (Nat.not_le.mpr hroom), hone, hs.contents_popped hempty]
      refine ⟨congrArg (· + 1) h1, h2, h3, ?_, h5⟩
      rw [List.take_succ_cons, List.append_cons]
      exact h4
    · have hnone : copied dst src (n + 1) = 0 := by unfold copied; omega
      rw [if_pos hfull, hnone]
      simp [hd, hs]

/-- The entries that are seen from an offset on are copied, as many as have room. -/
theorem lookaheadCopyEntries_eq (offset n i : ℕ) (hd : dst.Valid) (hs : src.Valid)
    (hsize : src.entrySize = dst.entrySize) (hsum : offset + i + n ≤ src.currentCount) :
    (lookaheadCopyEntries src offset n i dst).1 =
        i + min n (dst.maxEntries - dst.currentCount) ∧
      (lookaheadCopyEntries src offset n i dst).2.Valid ∧
      (lookaheadCopyEntries src offset n i dst).2.contents =
        dst.contents ++ (src.contents.drop (offset + i)).take
          (min n (dst.maxEntries - dst.currentCount)) := by
  induction n generalizing dst i with
  | zero => simp [lookaheadCopyEntries, hd]
  | succ n ih =>
    have hle := hs.bounded
    unfold lookaheadCopyEntries
    rw [if_neg (by omega)]
    rcases Nat.lt_or_ge dst.currentCount dst.maxEntries with hroom | hfull
    · have hlt : offset + i < src.contents.length := by rw [length_contents]; omega
      have hentry : src.entryAt (wrap src.maxEntries (u32 (src.position + offset + i))) =
          src.contents[offset + i] := by
        rw [getElem_contents, Nat.add_assoc, hs.u32_position (by omega) (by omega)]
      have hlen : (src.contents[offset + i]).length = dst.entrySize := by
        rw [← hentry, length_entryAt, hsize]
      have hmin : min (n + 1) (dst.maxEntries - dst.currentCount) =
          min n (dst.maxEntries - (dst.currentCount + 1)) + 1 := by omega
      have hd' : (dst.fill src.contents[offset + i]).written.Valid := hd.fill_written hroom
      obtain ⟨h1, h2, h3⟩ := ih (i + 1) hd' hsize (by omega)
      rw [hd.currentCount_written hroom] at h1 h3
      rw [hd.contents_fill_whole hroom hlen] at h3
      rw [if_neg (Nat.not_le.mpr hroom), hentry, hmin]
      refine ⟨?_, h2, ?_⟩
      · calc _ = i + 1 + min n (dst.maxEntries - (dst.currentCount + 1)) := h1
          _ = _ := by omega
      · rw [List.drop_eq_getElem_cons hlt, List.take_succ_cons, List.append_cons]
        exact h3
    · rw [if_pos hfull, Nat.sub_eq_zero_of_le hfull]
      simp [hd]

end RingBuffer

end Guillemot.Mip
