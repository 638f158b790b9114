import Guillemot.Imu.MipPacket

/-!
# The receiving loop of `SubImuControllerMain.cpp`

`main` hunts for the sync bytes (`waitForGoodHeader`), reads a frame into `aBuf`, and decodes and
publishes it when its descriptor set is the IMU data set. The serial port is the list of the bytes
that it still delivers, one after the other: a `recv` that returns no byte or an error is repeated
by every loop here, so only the bytes matter, and a call that runs out of them waits (`none`). The
node is not shut down meanwhile.

`nextFrame` says how one iteration cuts the stream, without the buffer, and `mainRound_eq` that the
iteration does so.
-/

namespace Guillemot.Imu

/-! ## The buffer -/

/-- The bytes of `aBuf`, which is longer than any frame. -/
abbrev Memory := ℕ → UInt8

namespace Memory

/-- The memory with the bytes `xs` written from index `k` on. -/
def write (m : Memory) (k : ℕ) (xs : List UInt8) : Memory :=
  fun i => if k ≤ i then xs.getD (i - k) (m i) else m i

@[simp]
theorem write_nil (m : Memory) (k : ℕ) : m.write k [] = m := by
  funext i
  simp [write]

/-- A byte and then the ones after it. -/
theorem write_cons (m : Memory) (k : ℕ) (x : UInt8) (xs : List UInt8) :
    m.write k (x :: xs) = (m.write k [x]).write (k + 1) xs := by
  funext i
  rcases Nat.lt_trichotomy i k with h | rfl | h
  · simp [write, Nat.not_le.mpr h, Nat.not_le.mpr (Nat.lt_succ_of_lt h)]
  · simp [write]
  · obtain ⟨d, rfl⟩ : ∃ d, i = k + 1 + d := ⟨i - (k + 1), by omega⟩
    have hd : k + 1 + d - k = d + 1 := by omega
    have hk : k ≤ k + 1 + d := by omega
    simp [write, hd, hk]

/-- Consecutive writes. -/
theorem write_append (m : Memory) (k : ℕ) (xs ys : List UInt8) :
    (m.write k xs).write (k + xs.length) ys = m.write k (xs ++ ys) := by
  induction xs generalizing m k with
  | nil => simp
  | cons x xs ih =>
    rw [write_cons, List.cons_append, write_cons m k x (xs ++ ys), ← ih,
      show k + (x :: xs).length = k + 1 + xs.length by simp only [List.length_cons]; omega]

/-- A byte that is written over does not matter. -/
theorem write_write_of_lt (m : Memory) (b : UInt8) {k : ℕ} {xs : List UInt8} (h : k < xs.length) :
    (m.write k [b]).write 0 xs = m.write 0 xs := by
  funext i
  by_cases hi : i < xs.length
  · simp [write, hi]
  · have hk : k ≤ i := by omega
    have hne : i - k ≠ 0 := by omega
    obtain ⟨d, hd⟩ : ∃ d, i - k = d + 1 := ⟨i - k - 1, by omega⟩
    simp [write, hi, hk, hd]

/-- The bytes that were written. -/
theorem write_zero_apply (m : Memory) (xs : List UInt8) {i : ℕ} (h : i < xs.length) :
    m.write 0 xs i = xs.getD i 0 := by
  simp [write, h]

/-- The bytes that were written, as a list. -/
theorem map_write_zero (m : Memory) (xs : List UInt8) :
    (List.range xs.length).map (m.write 0 xs) = xs := by
  refine List.ext_getElem (by simp) fun i hi hi' => ?_
  simp [write, hi']

end Memory

/-! ## The code -/

/-- `while (size < target) size += sp.recv(&aBuf[size], ..)`: the size, the buffer and the port
afterwards. -/
def recvUntil (target : ℕ) (size : ℕ) (aBuf : Memory) (port : List UInt8) :
    Option (ℕ × Memory × List UInt8) :=
  if size < target then
    match port with
    | [] => none
    | b :: port => recvUntil target (size + 1) (aBuf.write size [b]) port
  else some (size, aBuf, port)
termination_by structural port

/-- `waitForGoodHeader`. -/
def waitForGoodHeader (pBuf : Memory) : List UInt8 → Option (ℕ × Memory × List UInt8)
  | [] => none
  | b0 :: port =>
    let pBuf := pBuf.write 0 [b0]
    if b0 = syncByte1Value then
      match port with
      | [] => none
      | b1 :: port =>
        let pBuf := pBuf.write 1 [b1]
        if b1 = syncByte2Value then
          recvUntil (mipPacketHeaderSize + mipPacketFooterSize) 2 pBuf port
        else waitForGoodHeader pBuf port
    else waitForGoodHeader pBuf port

/-- The topics that `main` advertises. -/
inductive Topic where
  | imuAttitude
  | imuAccelDebug
  | imuGyroDebug
deriving DecidableEq, Repr

/-- A message that `main` publishes. -/
structure Publication where
  /-- The publisher. -/
  topic : Topic
  /-- `rawMsg.data`. -/
  data : List UInt32
deriving DecidableEq, Repr

/-- The three floats of an object of a vector class, which `main` reads after a `static_cast`. -/
def MipField.floats : MipField → Option (UInt32 × UInt32 × UInt32)
  | .vector _ obj => some (obj.x, obj.y, obj.z)
  | .dataField _ => none

section Main

-- The conversion of an angle to degrees, `angle * (180.0 / M_PI)` as a `Float32`.
variable (degrees : UInt32 → UInt32)

/-- The messages that the loop of `main` over the fields publishes for one of them. Undefined for a
null pointer, and for a cast of an object of another class. -/
def publishField (pData : Option MipField) : Option (List Publication) := do
  let field ← pData
  if field.getFieldDescriptor = dataFieldEulerAnglesSet then
    let (yaw, pitch, roll) ← field.floats
    return [⟨.imuAttitude, [degrees yaw, degrees pitch, degrees roll]⟩]
  else if field.getFieldDescriptor = dataFieldScaledAccelerometerVectorSet then
    let (x, y, z) ← field.floats
    return [⟨.imuAccelDebug, [x, y, z]⟩]
  else if field.getFieldDescriptor = dataFieldScaledGyroVectorSet then
    let (x, y, z) ← field.floats
    return [⟨.imuGyroDebug, [x, y, z]⟩]
  else return []

/-- More rounds than the field decoder has on a frame on which it ends. -/
def decoderRounds : ℕ := 256

/-- What `main` does with a frame of the IMU data set: the messages that it publishes.
`packet.isChecksumGood()` is not called. -/
def handlePacket (aBuf : Memory) (size : ℕ) : Outcome (List Publication) := do
  -- `deserialize` sets `m_goodChecksum`, so that what the constructor leaves there is not read.
  let packet ← (MipPacket.new false).deserialize (.total aBuf) size decoderRounds
  let fields ← .ofOption packet.fieldList.iterate
  let published ← .ofOption (fields.mapM (publishField degrees))
  return published.flatten

/-- What one iteration of the loop of `main` does. -/
structure Round where
  /-- The bytes of `aBuf` below `size`, in the branch `size == expectedSize`. -/
  assembled : Option (List UInt8)
  /-- How the handling of the packet ends, where `packet.deserialize` is called. -/
  handled : Option (Outcome (List Publication))
deriving DecidableEq, Repr

/-- The iteration is left again. -/
def Round.Returns (r : Round) : Bool :=
  match r.handled with
  | none => true
  | some (.done _) => true
  | some _ => false

/-- The messages published in an iteration. -/
def Round.published (r : Round) : List Publication :=
  match r.handled with
  | some (.done ps) => ps
  | _ => []

/-- The branch of `main` after its read loop. -/
def handleFrame (size : ℕ) (expectedSize : UInt8) (aBuf : Memory) : Round :=
  if size = expectedSize.toNat then
    { assembled := some ((List.range size).map aBuf)
      handled :=
        if aBuf descriptorOffset = 0x80 then some (handlePacket degrees aBuf size) else none }
  else ⟨none, none⟩

/-- `expectedSize`, a `UInt8`, of a frame with the payload length `n`. -/
def expectedSize (n : UInt8) : UInt8 :=
  toUInt8 (mipPacketHeaderSize + mipPacketFooterSize + n.toNat)

/-- One iteration of the loop of `main`; `none` when it waits for more bytes. -/
def mainRound (aBuf : Memory) (port : List UInt8) : Option (Round × Memory × List UInt8) := do
  let (size, aBuf, port) ← waitForGoodHeader aBuf port
  if 0 < size then
    let expected := expectedSize (aBuf payloadLengthOffset)
    let (size, aBuf, port) ← recvUntil expected.toNat size aBuf port
    return (handleFrame degrees size expected aBuf, aBuf, port)
  else return (⟨none, none⟩, aBuf, port)

/-- At most `fuel` iterations of the loop of `main`: what they do, and the bytes that are left for
the iteration that waits or, when one never returns, after that one. -/
def mainLoop : ℕ → Memory → List UInt8 → List Round × List UInt8
  | 0, _, port => ([], port)
  | fuel + 1, aBuf, port =>
    match mainRound degrees aBuf port with
    | none => ([], port)
    | some (r, aBuf, port) =>
      if r.Returns then
        let (rs, rest) := mainLoop fuel aBuf port
        (r :: rs, rest)
      else ([r], port)

/-- `main` on a port that delivers the bytes `port`. Every iteration reads at least a byte. -/
def main (aBuf : Memory) (port : List UInt8) : List Round × List UInt8 :=
  mainLoop degrees port.length aBuf port

end Main

/-! ## How an iteration cuts the stream -/

/-- The stream from the sync bytes on that `waitForGoodHeader` comes to. After a first sync byte it
takes the next byte for the second, whatever that byte is. -/
def hunt : List UInt8 → Option (List UInt8)
  | [] => none
  | b0 :: port =>
    if b0 = syncByte1Value then
      match port with
      | [] => none
      | b1 :: rest => if b1 = syncByte2Value then some (b0 :: b1 :: rest) else hunt rest
    else hunt port

/-- The frame at the start of a stream that begins with sync bytes, and what comes after it. The
lengths from 250 on are those that `expectedSize` does not hold: six bytes are read, and dropped. -/
def cutFrame (s : List UInt8) : Option (Option (List UInt8) × List UInt8) :=
  if s.length < 6 then none
  else if 250 ≤ (s.getD 3 0).toNat then some (none, s.drop 6)
  else if s.length < 6 + (s.getD 3 0).toNat then none
  else some (some (s.take (6 + (s.getD 3 0).toNat)), s.drop (6 + (s.getD 3 0).toNat))

/-- What one iteration of `main` takes from the stream: a frame, or none where it drops what it
read, and the rest of the stream; nothing when it waits. -/
def nextFrame (port : List UInt8) : Option (Option (List UInt8) × List UInt8) :=
  (hunt port).bind cutFrame

/-- The descriptor set of a frame. -/
def descriptorSetOf (frame : List UInt8) : UInt8 := frame.getD 2 0

/-- What one iteration of `main` does with a frame. -/
def Round.ofFrame (degrees : UInt32 → UInt32) (aBuf : Memory) (frame : List UInt8) : Round where
  assembled := some frame
  handled :=
    if descriptorSetOf frame = 0x80 then
      some (handlePacket degrees (aBuf.write 0 frame) frame.length)
    else none

/-- The read loops take the next bytes, up to their target. -/
theorem recvUntil_append (target size : ℕ) (aBuf : Memory) (xs port : List UInt8)
    (h : size + xs.length = target) :
    recvUntil target size aBuf (xs ++ port) = some (target, aBuf.write size xs, port) := by
  induction xs generalizing size aBuf with
  | nil =>
    obtain rfl : size = target := h
    cases port <;> simp [recvUntil]
  | cons x xs ih =>
    have hlt : size < target := by
      rw [List.length_cons] at h
      omega
    rw [List.cons_append, recvUntil, if_pos hlt, ih _ _ (by rw [← h, List.length_cons]; omega),
      ← Memory.write_cons]

/-- The read loops wait when too few bytes are left. -/
theorem recvUntil_eq_none {target size : ℕ} (aBuf : Memory) (port : List UInt8)
    (h : size + port.length < target) : recvUntil target size aBuf port = none := by
  induction port generalizing size aBuf with
  | nil =>
    have hlt : size < target := h
    simp [recvUntil, hlt]
  | cons b port ih =>
    rw [List.length_cons] at h
    rw [recvUntil, if_pos (by omega), ih _ (by omega)]

/-- A read loop that is at its target already. -/
theorem recvUntil_of_le {target size : ℕ} (aBuf : Memory) (port : List UInt8)
    (h : target ≤ size) : recvUntil target size aBuf port = some (size, aBuf, port) := by
  cases port <;> simp [recvUntil, Nat.not_lt.mpr h]

/-- `waitForGoodHeader` reads six bytes from where `hunt` finds the sync bytes. What it wrote before
is written over. -/
theorem waitForGoodHeader_eq (pBuf : Memory) (port : List UInt8) :
    waitForGoodHeader pBuf port = (hunt port).bind fun s =>
      if s.length < 6 then none else some (6, pBuf.write 0 (s.take 6), s.drop 6) := by
  -- A byte written at the start of the buffer does not change what is returned.
  have hover : ∀ (k : ℕ) (b : UInt8) (m : Memory) (port : List UInt8), k < 2 →
      ((hunt port).bind fun s =>
        if s.length < 6 then none else some (6, (m.write k [b]).write 0 (s.take 6), s.drop 6)) =
      (hunt port).bind fun s =>
        if s.length < 6 then none else some (6, m.write 0 (s.take 6), s.drop 6) := by
    intro k b m port hk
    congr 1
    funext s
    split_ifs with hs
    · rfl
    · rw [Memory.write_write_of_lt]
      rw [List.length_take]
      omega
  fun_induction hunt port generalizing pBuf with
  | case1 => rfl
  | case2 => rfl
  | case3 rest =>
    -- Both sync bytes are there. Four more are read, or waited for.
    have hpair : (pBuf.write 0 [syncByte1Value]).write 1 [syncByte2Value] =
        pBuf.write 0 [syncByte1Value, syncByte2Value] := (Memory.write_cons _ _ _ _).symm
    rw [Option.bind_some, waitForGoodHeader, if_pos rfl]
    simp only [if_true, hpair]
    by_cases hlen : rest.length < 4
    · rw [if_pos (by simp only [List.length_cons]; omega), recvUntil_eq_none _ _ (by
        simp only [mipPacketHeaderSize, mipPacketFooterSize]; omega)]
    · have hsplit := List.take_append_drop 4 rest
      have hfour : (rest.take 4).length = 4 := by rw [List.length_take]; omega
      have hread := recvUntil_append 6 2 (pBuf.write 0 [syncByte1Value, syncByte2Value])
        (rest.take 4) (rest.drop 4) (by omega)
      have hsix : (pBuf.write 0 [syncByte1Value, syncByte2Value]).write 2 (rest.take 4) =
          pBuf.write 0 (syncByte1Value :: syncByte2Value :: rest.take 4) :=
        Memory.write_append pBuf 0 [syncByte1Value, syncByte2Value] _
      rw [hsplit, hsix] at hread
      rw [if_neg (by simp only [List.length_cons]; omega)]
      exact hread
  | case4 b1 rest hb1 ih =>
    -- The byte after a first sync byte is not the second one. Both are gone.
    unfold waitForGoodHeader
    rw [if_pos rfl]
    simp only [hb1, if_false]
    rw [ih, hover 1 b1 _ _ (by omega), hover 0 _ _ _ (by omega)]
  | case5 b0 port hb0 ih =>
    -- A byte that is no first sync byte is gone.
    rw [waitForGoodHeader.eq_def]
    simp only [hb0, if_false]
    rw [ih, hover 0 _ _ _ (by omega)]

/-- `expectedSize` wraps around from the payload length 250 on. -/
theorem toNat_expectedSize (n : UInt8) :
    (expectedSize n).toNat = if 250 ≤ n.toNat then n.toNat - 250 else 6 + n.toNat := by
  have hn := n.toNat_lt
  have h := toNat_toUInt8 (mipPacketHeaderSize + mipPacketFooterSize + n.toNat)
  simp only [mipPacketHeaderSize, mipPacketFooterSize, expectedSize] at h ⊢
  split_ifs <;> omega

/-- The branch of `main` after its read loop, on a frame that was read whole. -/
theorem handleFrame_ofFrame (degrees : UInt32 → UInt32) (aBuf : Memory) {frame : List UInt8}
    {expectedSize : UInt8} (h : frame.length = expectedSize.toNat) (hlen : 6 ≤ frame.length) :
    handleFrame degrees frame.length expectedSize (aBuf.write 0 frame) =
      .ofFrame degrees aBuf frame := by
  unfold handleFrame
  rw [if_pos h, Memory.map_write_zero, descriptorOffset,
    Memory.write_zero_apply _ _ (show 2 < frame.length by omega)]
  rfl

/-- One iteration of `main` cuts the stream as `nextFrame` says, and goes on in some buffer. -/
theorem mainRound_eq (degrees : UInt32 → UInt32) (aBuf : Memory) (port : List UInt8) :
    (nextFrame port = none ∧ mainRound degrees aBuf port = none) ∨
    ∃ cut rest aBuf', nextFrame port = some (cut, rest) ∧ mainRound degrees aBuf port =
      some (cut.elim ⟨none, none⟩ (Round.ofFrame degrees aBuf), aBuf', rest) := by
  simp only [mainRound, waitForGoodHeader_eq, nextFrame]
  cases hunt port with
  | none => exact .inl ⟨rfl, rfl⟩
  | some s =>
    simp only [Option.bind_some, cutFrame]
    by_cases hshort : s.length < 6
    · -- `waitForGoodHeader` waits for the rest of the six bytes.
      simp [hshort]
    have hsix : (s.take 6).length = 6 := by rw [List.length_take]; omega
    have hn : (aBuf.write 0 (s.take 6)) payloadLengthOffset = s.getD 3 0 := by
      unfold payloadLengthOffset
      rw [Memory.write_zero_apply _ _ (by omega)]
      simp
    have hexp := toNat_expectedSize (s.getD 3 0)
    simp only [hshort, if_false, Option.bind_eq_bind, Option.bind_some, hn,
      show (0 < 6) = True by simp, if_true]
    by_cases hlarge : 250 ≤ (s.getD 3 0).toNat
    · -- `expectedSize` has wrapped around to less than the six bytes that were read.
      right
      have := (s.getD 3 0).toNat_lt
      rw [if_pos hlarge] at hexp
      refine ⟨none, s.drop 6, aBuf.write 0 (s.take 6), by rw [if_pos hlarge], ?_⟩
      rw [recvUntil_of_le _ _ (by omega), Option.bind_some, handleFrame, if_neg (by omega)]
      rfl
    rw [if_neg hlarge] at hexp
    rw [if_neg hlarge, hexp]
    by_cases hwait : s.length < 6 + (s.getD 3 0).toNat
    · -- The read loop waits for the rest of the frame.
      left
      rw [recvUntil_eq_none _ _ (by rw [List.length_drop]; omega)]
      exact ⟨if_pos hwait, rfl⟩
    · -- The frame is read behind its header, and both are one write from index 0 on.
      right
      set n := (s.getD 3 0).toNat with hdef
      refine ⟨some (s.take (6 + n)), s.drop (6 + n), aBuf.write 0 (s.take (6 + n)),
        if_neg hwait, ?_⟩
      have hsplit : s.drop 6 = (s.drop 6).take n ++ s.drop (6 + n) := by
        rw [← List.drop_drop, List.take_append_drop]
      have hframe : s.take (6 + n) = s.take 6 ++ (s.drop 6).take n := List.take_add ..
      have hlen : (s.take (6 + n)).length = 6 + n := by rw [List.length_take]; omega
      have hread := recvUntil_append (6 + n) 6 (aBuf.write 0 (s.take 6))
        ((s.drop 6).take n) (s.drop (6 + n)) (by
          rw [List.length_take, List.length_drop]
          omega)
      have hwrite : (aBuf.write 0 (s.take 6)).write 6 ((s.drop 6).take n) =
          aBuf.write 0 (s.take (6 + n)) := by
        rw [hframe, ← Memory.write_append aBuf 0 (s.take 6), hsix]
      have hround := handleFrame_ofFrame degrees aBuf (hlen.trans hexp.symm) (by omega)
      rw [hlen] at hround
      rw [hsplit, hread, hwrite]
      simp only [Option.bind_some, hround]
      rfl

end Guillemot.Imu
