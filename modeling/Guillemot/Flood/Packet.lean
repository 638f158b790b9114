import Mathlib.Data.List.GetD
import Mathlib.Order.Basic
import Mathlib.Tactic.SplitIfs
import Mathlib.Tactic.Common

/-!
# Packets of the flood sensor board

`recvHeader` and `recvPacket` of `SubFloodSensorMain.cpp`. A packet is `'S'`, a size, a number of
bytes for each reading, and as many data bytes as the size says. `Line` is all that the outside
decides: the bytes that the board sends, how many of them each call of `recv` finds, and whether the
port is good. A call that finds none has timed out or failed.

The three loops that receive are one (`fill`). `Line.Arrives` says of the line alone when such a
loop gets all its bytes, and `fill_of_arrives` and `fill_of_not_arrives` what it does. `Line.Honest`
is the condition on the line under which `recvPacket` returns what it should
(`recvPacket_honest_iff`).
-/

namespace Guillemot.Flood

/-! ## The line -/

/-- The board and the port, as `recv` and `isGood` show them. -/
structure Line where
  /-- The bytes that the board sends, in order. -/
  byte : ℕ → UInt8
  /-- How many bytes are there when `recv` is called for the time `k`. -/
  found : ℕ → ℕ
  /-- What `isGood` returns after `k` calls of `recv`. -/
  good : ℕ → Bool

/-- How far a line has been used. -/
structure Port where
  /-- The number of bytes that were received. -/
  pos : ℕ
  /-- The number of calls of `recv`. -/
  calls : ℕ
deriving DecidableEq, Repr

/-- The bytes that the board sends from the `pos`-th on, `n` of them. -/
def Line.bytes (line : Line) (pos n : ℕ) : List UInt8 :=
  (List.range n).map fun i => line.byte (pos + i)

/-- `SerialInterface::recv`, which reads at most `size` bytes of those that are there. -/
def Line.recv (line : Line) (p : Port) (size : ℕ) : Port × List UInt8 :=
  (⟨p.pos + min (line.found p.calls) size, p.calls + 1⟩,
    line.bytes p.pos (min (line.found p.calls) size))

@[simp]
theorem Line.length_bytes (line : Line) (pos n : ℕ) : (line.bytes pos n).length = n := by
  simp [bytes]

theorem Line.bytes_append (line : Line) (pos m n : ℕ) :
    line.bytes pos m ++ line.bytes (pos + m) n = line.bytes pos (m + n) := by
  unfold bytes
  rw [List.range_add, List.map_append, List.map_map]
  simp [Function.comp_def, Nat.add_assoc]

/-! ## Receiving -/

/-- `MIN_PACKET_SIZE`. -/
def minPacketSize : ℕ := 3

/-- `PACKET_SIZE_OFFSET`. -/
def packetSizeOffset : ℕ := 1

/-- `PACKET_BYTES_PER_READING_OFFSET`. -/
def packetBytesPerReadingOffset : ℕ := 2

/-- `PACKET_DATA_OFFSET`. -/
def packetDataOffset : ℕ := 3

/-- The value of `maxRetries` at the start. -/
def maxRetries : ℕ := 100

/-- `'S'`. -/
def startByte : UInt8 := 0x53

/-- The variables of a loop that receives. -/
structure Reading where
  /-- The port. -/
  port : Port
  /-- The bytes that were put into the buffer, one behind the other from its start on. -/
  received : List UInt8
  /-- `maxRetries`. -/
  retries : ℕ
deriving DecidableEq, Repr

/-- `pBuf[i]`. The bytes that are not received are the zeros of `memset`. -/
def Reading.pBuf (r : Reading) (i : ℕ) : UInt8 := r.received.getD i 0

/-- One round of a loop that receives up to `target` bytes. -/
def Reading.round (line : Line) (target : ℕ) (r : Reading) : Reading :=
  match line.recv r.port (target - r.received.length) with
  | (port, []) => { r with port, retries := r.retries - 1 }
  | (port, bytes) => { r with port, received := r.received ++ bytes }

/-- The guard of such a loop. -/
def Reading.Goes (line : Line) (target : ℕ) (r : Reading) : Prop :=
  r.received.length < target ∧ 0 < r.retries ∧ line.good r.port.calls = true

instance (line : Line) (target : ℕ) (r : Reading) : Decidable (r.Goes line target) :=
  inferInstanceAs (Decidable (_ ∧ _))

/-- At most `fuel` rounds of such a loop. -/
def fillUpTo (line : Line) (target : ℕ) : ℕ → Reading → Reading
  | 0, r => r
  | fuel + 1, r => if r.Goes line target then fillUpTo line target fuel (r.round line target) else r

/-- A loop that receives up to `target` bytes. Each of its rounds gets a byte or costs a retry. -/
def fill (line : Line) (target : ℕ) (r : Reading) : Reading :=
  fillUpTo line target (target - r.received.length + r.retries) r

/-- `recvHeader`: its value, and what is received. -/
def recvHeader (line : Line) (p : Port) : ℕ × Reading :=
  let r := fill line 1 ⟨p, [], maxRetries⟩
  if r.pBuf 0 = startByte then
    let r := fill line minPacketSize r
    (r.received.length, r)
  else (0, r)

/-- `recvPacket`: its value, and what is received; `none` where it divides by zero. -/
def recvPacket (line : Line) (p : Port) : Option (ℕ × Reading) :=
  let (packetSize, r) := recvHeader line p
  if r.pBuf 0 = startByte ∧ packetSize = minPacketSize then
    let newSize := (r.pBuf packetSizeOffset).toNat
    let r := fill line (newSize + minPacketSize) { r with retries := maxRetries }
    let currentSize := r.received.length
    let bytesPerReading := (r.pBuf packetBytesPerReadingOffset).toNat
    if minPacketSize < currentSize ∧ 0 < r.retries ∧ currentSize = newSize + minPacketSize then
      if bytesPerReading = 0 then none
      else if newSize % bytesPerReading = 0 then some (currentSize, r)
      -- The packet is thrown away, but `packetSize` is still the size of the header.
      else some (packetSize, r)
    else some (packetSize, r)
  else some (0, r)

/-! ## Bytes that arrive -/

/-- The number of bytes found by `j` calls of `recv` from the call `c` on. -/
def Line.total (line : Line) : ℕ → ℕ → ℕ
  | _, 0 => 0
  | c, j + 1 => line.found c + line.total (c + 1) j

/-- The number of these calls that find nothing. -/
def Line.empty (line : Line) : ℕ → ℕ → ℕ
  | _, 0 => 0
  | c, j + 1 => (if line.found c = 0 then 1 else 0) + line.empty (c + 1) j

/-- From the call `c` on, `n` bytes are there after `j` calls and no earlier; fewer than `retries`
of these calls find nothing, and the port is good before each. -/
structure Line.Arrives (line : Line) (retries c n j : ℕ) : Prop where
  enough : n ≤ line.total c j
  first : ∀ i < j, line.total c i < n
  retries : line.empty c j < retries
  good : ∀ i < j, line.good (c + i) = true

variable {line : Line} {retries c n j : ℕ}

/-- No call is needed for no bytes. -/
theorem Line.arrives_zero_iff : line.Arrives retries c 0 j ↔ j = 0 ∧ 0 < retries := by
  constructor
  · intro h
    obtain rfl : j = 0 := by
      by_contra hj
      exact absurd (h.first 0 (Nat.pos_of_ne_zero hj)) (Nat.not_lt_zero _)
    exact ⟨rfl, h.retries⟩
  · rintro ⟨rfl, hretries⟩
    exact ⟨Nat.le_refl 0, nofun, hretries, nofun⟩

/-- The first call for some bytes. -/
theorem Line.arrives_succ_iff (hn : 0 < n) :
    line.Arrives retries c n (j + 1) ↔
      line.good c = true ∧
        line.Arrives (retries - if line.found c = 0 then 1 else 0) (c + 1)
          (n - line.found c) j := by
  constructor
  · intro h
    refine ⟨by simpa using h.good 0 (Nat.succ_pos j), ?_, ?_, ?_, ?_⟩
    · have := h.enough
      simp only [total] at this
      omega
    · intro i hi
      have := h.first (i + 1) (by omega)
      simp only [total] at this
      omega
    · have := h.retries
      simp only [empty] at this
      omega
    · intro i hi
      have := h.good (i + 1) (by omega)
      rwa [show c + (i + 1) = c + 1 + i by omega] at this
  · rintro ⟨hgood, h⟩
    refine ⟨?_, ?_, ?_, ?_⟩
    · have := h.enough
      simp only [total]
      omega
    · rintro (_ | i) hi
      · exact hn
      · have := h.first i (by omega)
        simp only [total]
        omega
    · have := h.retries
      simp only [empty]
      omega
    · rintro (_ | i) hi
      · exact hgood
      · have := h.good i (by omega)
        rwa [show c + (i + 1) = c + 1 + i by omega]

/-- Bytes do not arrive without a call. -/
theorem Line.not_arrives_zero (hn : 0 < n) : ¬ line.Arrives retries c n 0 := by
  intro h
  have := h.enough
  simp only [total] at this
  omega

/-! ## What a loop receives -/

/-- What has been received are the bytes of the line from the port `p` on. -/
structure Reading.From (line : Line) (p : Port) (r : Reading) : Prop where
  received : r.received = line.bytes p.pos r.received.length
  pos : r.port.pos = p.pos + r.received.length

variable {p : Port} {r : Reading} {target : ℕ}

theorem Reading.From.start (line : Line) (p : Port) (retries : ℕ) :
    Reading.From line p ⟨p, [], retries⟩ := ⟨rfl, rfl⟩

/-- A byte of the buffer that has been received. -/
theorem Reading.From.pBuf (h : r.From line p) {i : ℕ} (hi : i < r.received.length) :
    r.pBuf i = line.byte (p.pos + i) := by
  unfold Reading.pBuf
  rw [h.received, List.getD_eq_getElem _ _ (by simpa using hi)]
  simp [Line.bytes]

/-- One round in one piece. -/
theorem Reading.round_eq (line : Line) (target : ℕ) (r : Reading) :
    r.round line target =
      { port := ⟨r.port.pos + min (line.found r.port.calls) (target - r.received.length),
          r.port.calls + 1⟩
        received := r.received ++
          line.bytes r.port.pos (min (line.found r.port.calls) (target - r.received.length))
        retries := r.retries -
          if min (line.found r.port.calls) (target - r.received.length) = 0 then 1 else 0 } := by
  unfold round Line.recv
  generalize min (line.found r.port.calls) (target - r.received.length) = m
  cases m with
  | zero => simp [Line.bytes]
  | succ m => simp [Line.bytes, List.range_succ_eq_map]

theorem Reading.From.round (h : r.From line p) (target : ℕ) :
    (r.round line target).From line p := by
  rw [Reading.round_eq]
  constructor
  · rw [List.length_append, Line.length_bytes, ← Line.bytes_append, ← h.received, ← h.pos]
  · simp only [List.length_append, Line.length_bytes]
    rw [h.pos]
    omega

/-- What each round keeps is kept by a loop. -/
theorem fillUpTo_keeps {P : Reading → Prop} (hround : ∀ r, P r → P (r.round line target)) (h : P r)
    (fuel : ℕ) : P (fillUpTo line target fuel r) := by
  induction fuel generalizing r with
  | zero => exact h
  | succ fuel ih =>
    unfold fillUpTo
    split_ifs
    · exact ih (hround r h)
    · exact h

/-- A loop receives what comes next, and no more than it wants. -/
theorem fillUpTo_from (h : r.From line p) (target fuel : ℕ) :
    (fillUpTo line target fuel r).From line p :=
  fillUpTo_keeps (fun _ hfrom => hfrom.round target) h fuel

/-- A round with bytes still wanted leaves those behind that it does not find. -/
theorem Reading.length_round (hlen : r.received.length < target) :
    target - (r.round line target).received.length =
      target - r.received.length - line.found r.port.calls := by
  rw [round_eq]
  simp only [List.length_append, Line.length_bytes]
  omega

theorem Reading.retries_round (hlen : r.received.length < target) :
    (r.round line target).retries =
      r.retries - if line.found r.port.calls = 0 then 1 else 0 := by
  rw [round_eq]
  have hmin : min (line.found r.port.calls) (target - r.received.length) = 0 ↔
      line.found r.port.calls = 0 := by omega
  simp only [hmin]

/-- A round gets a byte or costs a retry. -/
theorem Reading.measure_round (h : r.Goes line target) :
    target - (r.round line target).received.length + (r.round line target).retries <
      target - r.received.length + r.retries := by
  obtain ⟨hlen, hretries, -⟩ := h
  rw [length_round hlen, retries_round hlen]
  split_ifs <;> omega

theorem Reading.length_round_le (hlen : r.received.length ≤ target) :
    (r.round line target).received.length ≤ target := by
  rw [round_eq]
  simp only [List.length_append, Line.length_bytes]
  omega

/-- A loop whose bytes arrive ends with all of them, and with retries left. -/
theorem fillUpTo_of_arrives {j fuel : ℕ} (hlen : r.received.length ≤ target)
    (hfuel : target - r.received.length + r.retries ≤ fuel)
    (h : line.Arrives r.retries r.port.calls (target - r.received.length) j) :
    (fillUpTo line target fuel r).received.length = target ∧
      (fillUpTo line target fuel r).port.calls = r.port.calls + j ∧
      (fillUpTo line target fuel r).retries = r.retries - line.empty r.port.calls j ∧
      0 < (fillUpTo line target fuel r).retries := by
  induction fuel generalizing r j with
  | zero =>
    have := h.retries
    omega
  | succ fuel ih =>
    rcases Nat.lt_or_ge r.received.length target with hlt | hge
    · -- Bytes are wanted, so that there is a first call, and the guard is true.
      obtain ⟨j, rfl⟩ : ∃ i, j = i + 1 := by
        rcases j with _ | j
        · exact absurd h (Line.not_arrives_zero (by omega))
        · exact ⟨j, rfl⟩
      obtain ⟨hgood, hrest⟩ := (Line.arrives_succ_iff (by omega)).mp h
      have hgoes : r.Goes line target := ⟨hlt, by have := h.retries; omega, hgood⟩
      have hmeasure := Reading.measure_round hgoes
      have hcalls : (r.round line target).port.calls = r.port.calls + 1 := by
        rw [Reading.round_eq]
      rw [← Reading.length_round hlt, ← Reading.retries_round hlt, ← hcalls] at hrest
      obtain ⟨hlen', hcalls', hretries', hpos⟩ :=
        ih (Reading.length_round_le hlen) (by omega) hrest
      rw [fillUpTo, if_pos hgoes]
      refine ⟨hlen', by omega, ?_, hpos⟩
      rw [hretries', Reading.retries_round hlt, hcalls, Line.empty]
      omega
    · have hzero : target - r.received.length = 0 := by omega
      rw [hzero] at h
      obtain ⟨rfl, hretries⟩ := Line.arrives_zero_iff.mp h
      have hstops : ¬ r.Goes line target := fun hgoes => by have := hgoes.1; omega
      rw [fillUpTo, if_neg hstops]
      exact ⟨by omega, rfl, rfl, hretries⟩

/-- A loop whose bytes do not arrive ends without some of them. -/
theorem fillUpTo_of_not_arrives {fuel : ℕ} (hlen : r.received.length < target)
    (h : ∀ j, ¬ line.Arrives r.retries r.port.calls (target - r.received.length) j) :
    (fillUpTo line target fuel r).received.length < target := by
  induction fuel generalizing r with
  | zero => exact hlen
  | succ fuel ih =>
    unfold fillUpTo
    split_ifs with hgoes
    · obtain ⟨-, hretries, hgood⟩ := hgoes
      have hcalls : (r.round line target).port.calls = r.port.calls + 1 := by
        rw [Reading.round_eq]
      have hrest : ∀ j, ¬ line.Arrives (r.round line target).retries
          (r.round line target).port.calls
          (target - (r.round line target).received.length) j := by
        intro j hj
        rw [Reading.length_round hlen, Reading.retries_round hlen, hcalls] at hj
        exact h (j + 1) ((Line.arrives_succ_iff (by omega)).mpr ⟨hgood, hj⟩)
      refine ih ?_ hrest
      -- The round that got the last byte would be the end of an arrival.
      by_contra hfull
      have hzero : target - (r.round line target).received.length = 0 := by omega
      refine hrest 0 ?_
      rw [hzero, Line.arrives_zero_iff]
      refine ⟨rfl, ?_⟩
      rw [Reading.length_round hlen] at hzero
      rw [Reading.retries_round hlen, if_neg (by omega)]
      omega
    · exact hlen

/-- A loop does not take back what was received. -/
theorem le_length_fillUpTo (line : Line) (target fuel : ℕ) (r : Reading) :
    r.received.length ≤ (fillUpTo line target fuel r).received.length := by
  have hround : ∀ s : Reading, r.received.length ≤ s.received.length →
      r.received.length ≤ (s.round line target).received.length := by
    intro s hle
    rw [Reading.round_eq, List.length_append]
    exact Nat.le_trans hle (Nat.le_add_right _ _)
  exact fillUpTo_keeps hround (Nat.le_refl _) fuel

/-- What a loop does with bytes that arrive. -/
theorem fill_of_arrives {j : ℕ} (hlen : r.received.length ≤ target)
    (h : line.Arrives r.retries r.port.calls (target - r.received.length) j) :
    (fill line target r).received.length = target ∧
      (fill line target r).port.calls = r.port.calls + j ∧
      (fill line target r).retries = r.retries - line.empty r.port.calls j ∧
      0 < (fill line target r).retries :=
  fillUpTo_of_arrives hlen (Nat.le_refl _) h

/-- A loop ends with all its bytes exactly when they arrive, and then retries are left. -/
theorem fill_full_iff (line : Line) (hlen : r.received.length ≤ target)
    (hretries : 0 < r.retries) :
    ((fill line target r).received.length = target ↔
        ∃ j, line.Arrives r.retries r.port.calls (target - r.received.length) j) ∧
      ((fill line target r).received.length = target → 0 < (fill line target r).retries) := by
  have harrives : ∀ j, line.Arrives r.retries r.port.calls (target - r.received.length) j →
      (fill line target r).received.length = target ∧ 0 < (fill line target r).retries := by
    intro j hj
    obtain ⟨hfull, -, -, hleft⟩ := fill_of_arrives hlen hj
    exact ⟨hfull, hleft⟩
  have hiff : (fill line target r).received.length = target ↔
      ∃ j, line.Arrives r.retries r.port.calls (target - r.received.length) j := by
    constructor
    · intro hfull
      by_contra hnone
      -- Bytes are wanted, since none would arrive at once.
      have hlt : r.received.length < target := by
        by_contra hge
        refine hnone ⟨0, ?_⟩
        rw [Nat.sub_eq_zero_of_le (Nat.le_of_not_lt hge)]
        exact Line.arrives_zero_iff.mpr ⟨rfl, hretries⟩
      exact Nat.ne_of_lt (fillUpTo_of_not_arrives hlt (not_exists.mp hnone)) hfull
    · rintro ⟨j, hj⟩
      exact (harrives j hj).1
  refine ⟨hiff, fun hfull => ?_⟩
  obtain ⟨j, hj⟩ := hiff.mp hfull
  exact (harrives j hj).2

/-! ## The header and the packet on the line -/

/-- The header of a packet arrives in the call of `recvPacket` at the port `p`, and the calls of
`recv` up to `c` are used for it. -/
def Line.HeaderArrives (line : Line) (p : Port) (c : ℕ) : Prop :=
  ∃ j₁ j₂, line.Arrives maxRetries p.calls 1 j₁ ∧ line.byte p.pos = startByte ∧
    line.Arrives (maxRetries - line.empty p.calls j₁) (p.calls + j₁) (minPacketSize - 1) j₂ ∧
    c = p.calls + j₁ + j₂

theorem Line.HeaderArrives.start {p : Port} {c : ℕ} (h : line.HeaderArrives p c) :
    line.byte p.pos = startByte := by
  obtain ⟨-, -, -, hstart, -⟩ := h
  exact hstart

/-- The size in the header. -/
def Line.size (line : Line) (p : Port) : ℕ := (line.byte (p.pos + packetSizeOffset)).toNat

/-- The number of bytes for each reading in the header. -/
def Line.bytesPerReading (line : Line) (p : Port) : ℕ :=
  (line.byte (p.pos + packetBytesPerReadingOffset)).toNat

/-- Once its header arrives, the data bytes of a packet do so, too, and make up whole readings; or
the loop has got all of them when the size is divided by zero, which ends the program. -/
def Line.Honest (line : Line) (p : Port) : Prop :=
  ∀ c, line.HeaderArrives p c →
    (∃ j, line.Arrives maxRetries c (line.size p) j) ∧
      (line.bytesPerReading p ≠ 0 ∧ line.bytesPerReading p ∣ line.size p ∨
        line.bytesPerReading p = 0 ∧ 0 < line.size p)

/-- Bytes that are a complete packet. -/
def IsPacket (bs : List UInt8) : Prop :=
  ∃ size bytesPerReading data, bs = startByte :: size :: bytesPerReading :: data ∧
    data.length = size.toNat ∧ bytesPerReading ≠ 0 ∧ bytesPerReading.toNat ∣ size.toNat

/-- The bytes that the board sends while the port goes from `p` to `q`. -/
def Line.between (line : Line) (p q : Port) : List UInt8 := line.bytes p.pos (q.pos - p.pos)

theorem Reading.From.between (h : r.From line p) : line.between p r.port = r.received := by
  rw [Line.between, h.pos, Nat.add_sub_cancel_left, ← h.received]

/-- A header that arrives is received. -/
theorem recvHeader_of_arrives {c : ℕ} (h : line.HeaderArrives p c) :
    ∃ r, recvHeader line p = (minPacketSize, r) ∧ r.From line p ∧
      r.received.length = minPacketSize ∧ r.port.calls = c := by
  obtain ⟨j₁, j₂, hfirst, hstart, hrest, rfl⟩ := h
  have hfrom : (fill line 1 ⟨p, [], maxRetries⟩).From line p :=
    fillUpTo_from (.start line p maxRetries) 1 _
  obtain ⟨hlen, hcalls, hretries, -⟩ :=
    fill_of_arrives (r := ⟨p, [], maxRetries⟩) (Nat.zero_le 1) hfirst
  have hbyte : (fill line 1 ⟨p, [], maxRetries⟩).pBuf 0 = startByte := by
    rw [hfrom.pBuf (by omega), Nat.add_zero, hstart]
  generalize hfill : fill line 1 ⟨p, [], maxRetries⟩ = first at hfrom hlen hcalls hretries hbyte
  have hle : first.received.length ≤ minPacketSize := by
    rw [hlen]
    decide
  have hrest' : line.Arrives first.retries first.port.calls
      (minPacketSize - first.received.length) j₂ := by
    rw [hlen, hcalls, hretries]
    exact hrest
  obtain ⟨hlen', hcalls', -⟩ := fill_of_arrives hle hrest'
  refine ⟨fill line minPacketSize first, ?_, fillUpTo_from hfrom minPacketSize _, hlen',
    by rw [hcalls', hcalls]⟩
  unfold recvHeader
  simp only [hfill, hbyte, if_true, hlen']

/-- Without a header that arrives, `recvPacket` returns zero. -/
theorem recvPacket_of_not_header (h : ∀ c, ¬ line.HeaderArrives p c) :
    ∃ r, recvPacket line p = some (0, r) := by
  suffices hheader : ¬ ((recvHeader line p).2.pBuf 0 = startByte ∧
      (recvHeader line p).1 = minPacketSize) from
    ⟨_, by unfold recvPacket; simp only [hheader, if_false]; rfl⟩
  rintro ⟨hstart, hsize⟩
  unfold recvHeader at hstart hsize
  simp only at hstart hsize
  have hfrom : (fill line 1 ⟨p, [], maxRetries⟩).From line p :=
    fillUpTo_from (.start line p maxRetries) 1 _
  split_ifs at hstart hsize with hbyte
  · -- The first byte was received, and the others are missing.
    by_cases hfirst : ∃ j, line.Arrives maxRetries p.calls 1 j
    · obtain ⟨j₁, hj₁⟩ := hfirst
      obtain ⟨hlen, hcalls, hretries, -⟩ :=
        fill_of_arrives (r := ⟨p, [], maxRetries⟩) (Nat.zero_le 1) hj₁
      have hsent : line.byte p.pos = startByte := by
        rw [← hbyte, hfrom.pBuf (by omega), Nat.add_zero]
      refine absurd hsize (Nat.ne_of_lt (fillUpTo_of_not_arrives ?_ ?_))
      · rw [hlen]
        decide
      · intro j₂ hj₂
        rw [hlen, hcalls, hretries] at hj₂
        exact h _ ⟨j₁, j₂, hj₁, hsent, hj₂, rfl⟩
    · -- The buffer holds a zero where the first byte would be.
      have hlen : (fill line 1 ⟨p, [], maxRetries⟩).received.length < 1 :=
        fillUpTo_of_not_arrives (Nat.zero_lt_one) fun j hj => hfirst ⟨j, hj⟩
      have hnil : (fill line 1 ⟨p, [], maxRetries⟩).received = [] :=
        List.eq_nil_of_length_eq_zero (by omega)
      rw [Reading.pBuf, hnil] at hbyte
      exact absurd hbyte (by decide)
  · exact hbyte hstart

/-! ## What `recvPacket` returns -/

/-- Bytes behind a header on the line are a packet when they are as many as it says, and make up
whole readings. -/
theorem isPacket_bytes_iff (hstart : line.byte p.pos = startByte) {n : ℕ} (hn : minPacketSize ≤ n) :
    IsPacket (line.bytes p.pos n) ↔
      n = line.size p + minPacketSize ∧ line.bytesPerReading p ≠ 0 ∧
        line.bytesPerReading p ∣ line.size p := by
  obtain ⟨n, rfl⟩ : ∃ m, n = m + 3 := ⟨n - 3, by unfold minPacketSize at hn; omega⟩
  have hcons : line.bytes p.pos (n + 3) = startByte :: line.byte (p.pos + 1) ::
      line.byte (p.pos + 2) :: line.bytes (p.pos + 3) n := by
    rw [Nat.add_comm n 3, ← Line.bytes_append]
    simp [Line.bytes, List.range_succ_eq_map, hstart]
  have hzero : ∀ b : UInt8, b ≠ 0 ↔ b.toNat ≠ 0 := fun b => by
    rw [Ne, Ne, ← UInt8.toNat_inj]
    rfl
  rw [hcons]
  constructor
  · rintro ⟨size, k, data, hbytes, hlen, hk, hdvd⟩
    obtain ⟨-, rfl, rfl, rfl⟩ : startByte = startByte ∧ line.byte (p.pos + 1) = size ∧
        line.byte (p.pos + 2) = k ∧ line.bytes (p.pos + 3) n = data := by simpa using hbytes
    rw [Line.length_bytes] at hlen
    exact ⟨by rw [hlen]; rfl, (hzero _).mp hk, hdvd⟩
  · rintro ⟨hlen, hk, hdvd⟩
    refine ⟨_, _, _, rfl, ?_, (hzero _).mpr hk, hdvd⟩
    rw [Line.length_bytes]
    unfold minPacketSize at hlen
    exact Nat.add_right_cancel hlen

/-- With its header received, `recvPacket` returns the size of the header, or that of a packet with
all its bytes that make up whole readings; or it divides by zero. -/
theorem recvPacket_of_header {c : ℕ} (h : line.HeaderArrives p c) :
    ∃ r, r.From line p ∧ minPacketSize ≤ r.received.length ∧
      (r.received.length = line.size p + minPacketSize ↔
        ∃ j, line.Arrives maxRetries c (line.size p) j) ∧
      recvPacket line p =
        if 0 < line.size p ∧ r.received.length = line.size p + minPacketSize then
          if line.bytesPerReading p = 0 then none
          else if line.size p % line.bytesPerReading p = 0 then some (r.received.length, r)
          else some (minPacketSize, r)
        else some (minPacketSize, r) := by
  obtain ⟨first, hheader, hfrom, hlen, hcalls⟩ := recvHeader_of_arrives h
  have hstart := h.start
  have h3 : minPacketSize = 3 := rfl
  have hbyte0 : first.pBuf 0 = startByte := by rw [hfrom.pBuf (by omega), Nat.add_zero, hstart]
  have hbyte1 : (first.pBuf packetSizeOffset).toNat = line.size p := by
    rw [hfrom.pBuf (by unfold packetSizeOffset; omega)]
    rfl
  -- The loop goes on behind the header, with all its retries.
  let start : Reading := { first with retries := maxRetries }
  let r := fill line (line.size p + minPacketSize) start
  have hr : r.From line p := fillUpTo_from (r := start) ⟨hfrom.received, hfrom.pos⟩ _ _
  have hle : start.received.length ≤ r.received.length := le_length_fillUpTo line _ _ start
  have hstartLen : start.received.length = minPacketSize := hlen
  have hwanted : line.size p + minPacketSize - start.received.length = line.size p := by omega
  have hbyte2 : (r.pBuf packetBytesPerReadingOffset).toNat = line.bytesPerReading p := by
    rw [hr.pBuf (by unfold packetBytesPerReadingOffset; omega)]
    rfl
  have hfits : start.received.length ≤ line.size p + minPacketSize := by omega
  have hstartRetries : 0 < start.retries := show 0 < maxRetries by decide
  obtain ⟨hiff, hretries⟩ := fill_full_iff line hfits hstartRetries
  rw [hwanted, show start.port.calls = c from hcalls] at hiff
  -- When all data bytes arrive, retries are left: the test on them tells nothing more.
  have hguard : (minPacketSize < r.received.length ∧ 0 < r.retries ∧
      r.received.length = line.size p + minPacketSize) ↔
      0 < line.size p ∧ r.received.length = line.size p + minPacketSize := by
    constructor
    · rintro ⟨hlt, -, hfull⟩
      exact ⟨by omega, hfull⟩
    · rintro ⟨hpos, hfull⟩
      exact ⟨by omega, hretries hfull, hfull⟩
  refine ⟨r, hr, by omega, hiff, ?_⟩
  unfold recvPacket
  simp only [hheader, hbyte0, true_and, if_true, hbyte1]
  rw [← hbyte2]
  exact if_congr hguard rfl rfl

/-- Every positive value that `recvPacket` returns is owed to a packet exactly when the line is
honest. -/
theorem recvPacket_honest_iff (line : Line) (p : Port) :
    (∀ n r, recvPacket line p = some (n, r) → 0 < n → IsPacket (line.between p r.port)) ↔
      line.Honest p := by
  constructor
  · intro hsound c hc
    have hstart := hc.start
    obtain ⟨r, hfrom, hlen, harrives, hvalue⟩ := recvPacket_of_header hc
    -- When the size of the header is returned, a packet without data must have been received.
    have hheader : recvPacket line p = some (minPacketSize, r) →
        r.received.length = line.size p + minPacketSize ∧ line.bytesPerReading p ≠ 0 ∧
          line.bytesPerReading p ∣ line.size p := by
      intro h
      have hpacket := hsound _ _ h (by decide)
      rw [hfrom.between, hfrom.received] at hpacket
      exact (isPacket_bytes_iff hstart hlen).mp hpacket
    split_ifs at hvalue with hfull hzero hdvd
    · exact ⟨harrives.mp hfull.2, .inr ⟨hzero, hfull.1⟩⟩
    · exact ⟨harrives.mp hfull.2, .inl ⟨hzero, Nat.dvd_of_mod_eq_zero hdvd⟩⟩
    · obtain ⟨hfull', hk, hdvd'⟩ := hheader hvalue
      exact ⟨harrives.mp hfull', .inl ⟨hk, hdvd'⟩⟩
    · obtain ⟨hfull', hk, hdvd'⟩ := hheader hvalue
      exact ⟨harrives.mp hfull', .inl ⟨hk, hdvd'⟩⟩
  · intro hhonest n r hvalue hn
    by_cases hheader : ∃ c, line.HeaderArrives p c
    · obtain ⟨c, hc⟩ := hheader
      have hstart := hc.start
      obtain ⟨hj, hreadings⟩ := hhonest c hc
      obtain ⟨r', hfrom, hlen, harrives, hvalue'⟩ := recvPacket_of_header hc
      have hfull := harrives.mpr hj
      rw [hvalue] at hvalue'
      -- In every branch that returns, it is this reading, with whole readings in it.
      have hpacket : line.bytesPerReading p ≠ 0 → IsPacket (line.between p r'.port) := by
        intro hk
        have hdvd := (hreadings.resolve_right fun h => hk h.1).2
        rw [hfrom.between, hfrom.received]
        exact (isPacket_bytes_iff hstart hlen).mpr ⟨hfull, hk, hdvd⟩
      split_ifs at hvalue' with hdata hzero hdvd
      · obtain ⟨-, rfl⟩ := Prod.mk.inj (Option.some.inj hvalue')
        exact hpacket hzero
      · obtain ⟨-, rfl⟩ := Prod.mk.inj (Option.some.inj hvalue')
        exact hpacket hzero
      · -- There are no data bytes, so that the size would not have been divided.
        obtain ⟨-, rfl⟩ := Prod.mk.inj (Option.some.inj hvalue')
        have hsize : ¬ 0 < line.size p := fun hpos => hdata ⟨hpos, hfull⟩
        exact hpacket (hreadings.resolve_right fun h => hsize h.2).1
    -- Without a header zero is returned.
    · obtain ⟨r', hvalue'⟩ := recvPacket_of_not_header (not_exists.mp hheader)
      rw [hvalue'] at hvalue
      obtain ⟨rfl, -⟩ : 0 = n ∧ r' = r := by simpa using hvalue
      exact absurd hn (Nat.lt_irrefl 0)

end Guillemot.Flood
