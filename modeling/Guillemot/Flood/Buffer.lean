import Guillemot.Flood.Packet
import Guillemot.Library.Loop
import Mathlib.Algebra.GroupWithZero.Nat

/-!
# The buffer of the flood packets

`recvHeader` and `recvPacket` once more, now on the buffer that `main` allocates and with loops that
nothing bounds. A call of `recv` that may fill more than the rest of the buffer is a fault, whether
or not so many bytes are there, and so is a division by zero; `Ending` tells them apart.

`receive_eq` says of a loop that it ends and leaves in the buffer what `fill` receives. Therefore
`recvPacketIn` does what `recvPacket` says (`recvPacketIn_eq`), and `recvPacket_total_iff` is about
its faults.
-/

namespace Guillemot.Flood

/-! ## On the buffer -/

/-- `MAX_PACKET_SIZE`. -/
def maxPacketSize : ℕ := 255 + minPacketSize

instance : NeZero maxPacketSize := ⟨Nat.succ_ne_zero 257⟩

/-- The bytes that `main` allocates. -/
abbrev Buffer := Fin maxPacketSize → UInt8

/-- Bytes that are written from the index `i` on. -/
def Buffer.write (pBuf : Buffer) (i : ℕ) (bytes : List UInt8) : Buffer :=
  fun k => if i ≤ k ∧ k < i + bytes.length then bytes.getD (k - i) 0 else pBuf k

/-- The variables of a loop that receives, with `ret` or `currentSize`. -/
structure Variables where
  port : Port
  pBuf : Buffer
  size : ℕ
  retries : ℕ

/-- The guard of such a loop. -/
def Variables.goes (line : Line) (target : ℕ) (v : Variables) : Bool :=
  decide (v.size < target ∧ 0 < v.retries ∧ line.good v.port.calls = true)

/-- A round; `none` when `recv` may write behind the buffer. -/
def Variables.round (line : Line) (target : ℕ) (v : Variables) : Option Variables :=
  if v.size + (target - v.size) ≤ maxPacketSize then
    match line.recv v.port (target - v.size) with
    | (port, []) => some { v with port, retries := v.retries - 1 }
    | (port, bytes) =>
      some { v with port, pBuf := v.pBuf.write v.size bytes, size := v.size + bytes.length }
  else none

/-- A loop that receives up to `target` bytes. -/
def receive (line : Line) (target fuel : ℕ) (v : Variables) : Outcome Variables :=
  Loop.whileLoop (Variables.goes line target) (Variables.round line target) fuel v

/-- `recvHeader`. -/
def recvHeaderIn (line : Line) (fuel : ℕ) (v : Variables) : Outcome (ℕ × Variables) := do
  let v ← receive line 1 fuel v
  if v.pBuf 0 = startByte then
    let v ← receive line minPacketSize fuel v
    pure (v.size, v)
  else pure (0, v)

/-- How `recvPacket` ends: not within the bound on the rounds of its loops, with a write behind the
buffer, with a division by zero, or with a value. -/
inductive Ending where
  | running
  | outside
  | divided
  | returned (n : ℕ)
deriving DecidableEq, Repr

/-- An outcome of the loops, where the only fault is a write, and what follows. -/
def Ending.after {α : Type} (o : Outcome α) (f : α → Ending) : Ending :=
  match o with
  | .running => .running
  | .fault => .outside
  | .done a => f a

/-- The last part of `recvPacket`, which verifies the packet. -/
def Variables.verify (packetSize : ℕ) (v : Variables) : Ending :=
  if minPacketSize < v.size ∧ 0 < v.retries then
    let newSize := (v.pBuf 1).toNat
    let bytesPerReading := (v.pBuf 2).toNat
    if v.size = newSize + minPacketSize then
      if bytesPerReading = 0 then .divided
      else if newSize % bytesPerReading = 0 then .returned v.size
      else .returned packetSize
    else .returned packetSize
  else .returned packetSize

/-- `recvPacket`, from its `memset` on. -/
def recvPacketIn (line : Line) (fuel : ℕ) (p : Port) : Ending :=
  .after (recvHeaderIn line fuel ⟨p, fun _ => 0, 0, maxRetries⟩) fun (packetSize, v) =>
    if v.pBuf 0 = startByte ∧ packetSize = minPacketSize then
      let newSize := (v.pBuf 1).toNat
      .after (receive line (newSize + minPacketSize) fuel { v with retries := maxRetries }) fun v =>
        v.verify packetSize
    else .returned 0

/-! ## What the loops leave in the buffer -/

/-- The variables of a loop that has received `r`. -/
def Reading.inBuffer (r : Reading) : Variables :=
  ⟨r.port, fun k => r.pBuf k, r.received.length, r.retries⟩

variable {line : Line} {target fuel : ℕ} {r : Reading} {p : Port}

/-- Bytes behind those that were received. -/
theorem write_received (received bytes : List UInt8) :
    Buffer.write (fun k => received.getD k 0) received.length bytes =
      fun k => (received ++ bytes).getD k.val 0 := by
  funext k
  unfold Buffer.write
  split_ifs with hk
  · rw [List.getD_append_right _ _ _ _ hk.1]
  · rcases Nat.lt_or_ge k received.length with hlt | hge
    · rw [List.getD_append _ _ _ _ hlt]
    · -- Neither list goes so far.
      have hbehind : (received ++ bytes).length ≤ k := by
        rw [List.length_append]
        omega
      rw [List.getD_eq_default _ _ hbehind]
      exact List.getD_eq_default _ _ hge

/-- A round with a target in the buffer does not write behind it. -/
theorem round_inBuffer (hle : r.received.length ≤ target) (hfits : target ≤ maxPacketSize) :
    r.inBuffer.round line target = some (r.round line target).inBuffer := by
  have hinside : r.inBuffer.size + (target - r.inBuffer.size) ≤ maxPacketSize := by
    unfold Reading.inBuffer
    dsimp only
    omega
  unfold Variables.round Reading.round
  rw [if_pos hinside]
  unfold Reading.inBuffer
  dsimp only
  generalize line.recv r.port (target - r.received.length) = found
  obtain ⟨port, bytes⟩ := found
  cases bytes with
  | nil => rfl
  | cons b bytes =>
    dsimp only [Reading.pBuf]
    rw [write_received, List.length_append]

theorem fillUpTo_of_not_goes (h : ¬ r.Goes line target) (bound : ℕ) :
    fillUpTo line target bound r = r := by
  cases bound with
  | zero => rfl
  | succ bound => rw [fillUpTo, if_neg h]

/-- Such a loop ends within its measure, and leaves what is received in the buffer. -/
theorem receive_eq_fillUpTo {bound : ℕ} (hle : r.received.length ≤ target)
    (hfits : target ≤ maxPacketSize) (hfuel : target - r.received.length + r.retries ≤ fuel)
    (hbound : target - r.received.length + r.retries ≤ bound) :
    receive line target fuel r.inBuffer = .done (fillUpTo line target bound r).inBuffer := by
  unfold receive
  induction fuel generalizing r bound with
  | zero =>
    have hends : ¬ r.Goes line target := fun hgoes => by have := hgoes.2.1; omega
    have hguard : r.inBuffer.goes line target = false := decide_eq_false hends
    rw [fillUpTo_of_not_goes hends, Loop.whileLoop_of_false hguard]
  | succ fuel ih =>
    by_cases hgoes : r.Goes line target
    · -- Both take the round, and it makes the measure smaller.
      obtain ⟨bound, rfl⟩ : ∃ b, bound = b + 1 := ⟨bound - 1, by have := hgoes.2.1; omega⟩
      have hmeasure := Reading.measure_round hgoes
      have hround : Loop.Round (Variables.goes line target) (Variables.round line target)
          r.inBuffer (r.round line target).inBuffer :=
        ⟨decide_eq_true hgoes, round_inBuffer hle hfits⟩
      rw [Loop.whileLoop_of_round hround, fillUpTo, if_pos hgoes]
      exact ih (Reading.length_round_le hle) (by omega) (by omega)
    · have hguard : r.inBuffer.goes line target = false := decide_eq_false hgoes
      rw [fillUpTo_of_not_goes hgoes, Loop.whileLoop_of_false hguard]

/-- A loop with enough fuel for the whole buffer and all retries. -/
theorem receive_eq (hle : r.received.length ≤ target) (hfits : target ≤ maxPacketSize)
    (hretries : r.retries ≤ maxRetries) (hfuel : maxPacketSize + maxRetries ≤ fuel) :
    receive line target fuel r.inBuffer = .done (fill line target r).inBuffer :=
  receive_eq_fillUpTo hle hfits (by omega) (Nat.le_refl _)

/-! ## The packet -/

/-- Retries are not gained. -/
theorem retries_fillUpTo_le (line : Line) (target fuel : ℕ) (r : Reading) :
    (fillUpTo line target fuel r).retries ≤ r.retries := by
  have hround : ∀ s : Reading, s.retries ≤ r.retries →
      (s.round line target).retries ≤ r.retries := by
    intro s hle
    rw [Reading.round_eq]
    exact Nat.le_trans (Nat.sub_le _ _) hle
  exact fillUpTo_keeps hround (Nat.le_refl _) fuel

/-- No loop receives more than it wants. -/
theorem length_fillUpTo_le (hle : r.received.length ≤ target) (fuel : ℕ) :
    (fillUpTo line target fuel r).received.length ≤ target := by
  have hround : ∀ s : Reading, s.received.length ≤ target →
      (s.round line target).received.length ≤ target := fun s hs => Reading.length_round_le hs
  exact fillUpTo_keeps hround hle fuel

/-- `recvHeader` on the buffer. -/
theorem recvHeaderIn_eq (hfuel : maxPacketSize + maxRetries ≤ fuel) :
    recvHeaderIn line fuel ⟨p, fun _ => 0, 0, maxRetries⟩ =
      .done ((recvHeader line p).1, (recvHeader line p).2.inBuffer) := by
  generalize hr : fill line 1 ⟨p, [], maxRetries⟩ = r
  have hfirst : receive line 1 fuel ⟨p, fun _ => 0, 0, maxRetries⟩ = .done r.inBuffer := by
    rw [← hr]
    exact receive_eq (r := ⟨p, [], maxRetries⟩) (Nat.zero_le 1) (by decide) (Nat.le_refl _) hfuel
  have hlen : r.received.length ≤ minPacketSize := by
    rw [← hr]
    exact Nat.le_trans (length_fillUpTo_le (r := ⟨p, [], maxRetries⟩) (Nat.zero_le 1) _) (by decide)
  have hretries : r.retries ≤ maxRetries := by
    rw [← hr]
    exact retries_fillUpTo_le line 1 _ ⟨p, [], maxRetries⟩
  have hsecond : receive line minPacketSize fuel r.inBuffer =
      .done (fill line minPacketSize r).inBuffer := receive_eq hlen (by decide) hretries hfuel
  have hsame : r.inBuffer.pBuf 0 = r.pBuf 0 := rfl
  unfold recvHeaderIn recvHeader
  rw [hfirst, Outcome.done_bind, hr, hsame]
  dsimp only
  by_cases hbyte : r.pBuf 0 = startByte
  · rw [if_pos hbyte, if_pos hbyte, hsecond]
    rfl
  · rw [if_neg hbyte, if_neg hbyte]
    rfl

/-- The size of a header that is complete is that of what was received. -/
theorem length_of_recvHeader (line : Line) (p : Port)
    (h : (recvHeader line p).1 = minPacketSize) :
    (recvHeader line p).2.received.length = minPacketSize := by
  unfold recvHeader at h ⊢
  dsimp only at h ⊢
  split_ifs at h ⊢
  · exact h
  · cases h

/-- A loop leaves what is in the buffer already. -/
theorem pBuf_fillUpTo {i : ℕ} (hi : i < r.received.length) (fuel : ℕ) :
    (fillUpTo line target fuel r).pBuf i = r.pBuf i := by
  have hround : ∀ s : Reading, i < s.received.length ∧ s.pBuf i = r.pBuf i →
      i < (s.round line target).received.length ∧ (s.round line target).pBuf i = r.pBuf i := by
    rintro s ⟨hlen, hkept⟩
    rw [← hkept, Reading.round_eq]
    refine ⟨?_, List.getD_append _ _ _ _ hlen⟩
    rw [List.length_append]
    exact Nat.lt_of_lt_of_le hlen (Nat.le_add_right _ _)
  have hkept : i < (fillUpTo line target fuel r).received.length ∧
      (fillUpTo line target fuel r).pBuf i = r.pBuf i := fillUpTo_keeps hround ⟨hi, rfl⟩ fuel
  exact hkept.2

/-- The last part of `recvPacket`, which reads the size a second time. -/
theorem verify_inBuffer (r : Reading) (packetSize : ℕ) {newSize : ℕ}
    (h : (r.pBuf 1).toNat = newSize) :
    r.inBuffer.verify packetSize =
      match
        (if minPacketSize < r.received.length ∧ 0 < r.retries ∧
            r.received.length = newSize + minPacketSize then
          if (r.pBuf packetBytesPerReadingOffset).toNat = 0 then none
          else if newSize % (r.pBuf packetBytesPerReadingOffset).toNat = 0 then
            some (r.received.length, r)
          else some (packetSize, r)
        else some (packetSize, r)) with
      | none => .divided
      | some (n, _) => .returned n := by
  have hsize : (r.inBuffer.pBuf 1).toNat = newSize := h
  have hreading : (r.inBuffer.pBuf 2).toNat = (r.pBuf packetBytesPerReadingOffset).toNat := rfl
  unfold Variables.verify
  rw [hsize, hreading]
  unfold Reading.inBuffer
  dsimp only
  by_cases hall : minPacketSize < r.received.length ∧ 0 < r.retries ∧
      r.received.length = newSize + minPacketSize
  · rw [if_pos hall, if_pos ⟨hall.1, hall.2.1⟩, if_pos hall.2.2]
    split_ifs <;> rfl
  · rw [if_neg hall]
    by_cases hreceived : minPacketSize < r.received.length ∧ 0 < r.retries
    · have hpart : ¬ r.received.length = newSize + minPacketSize :=
        fun hfull => hall ⟨hreceived.1, hreceived.2, hfull⟩
      rw [if_pos hreceived, if_neg hpart]
    · rw [if_neg hreceived]

/-- `recvPacket` on the buffer: its loops end, without a write behind the buffer. -/
theorem recvPacketIn_eq (hfuel : maxPacketSize + maxRetries ≤ fuel) :
    recvPacketIn line fuel p =
      match recvPacket line p with
      | none => .divided
      | some (n, _) => .returned n := by
  have hlen := length_of_recvHeader line p
  unfold recvPacketIn recvPacket
  rw [recvHeaderIn_eq hfuel]
  generalize recvHeader line p = header at hlen ⊢
  obtain ⟨packetSize, r⟩ := header
  have hsame : r.inBuffer.pBuf 0 = r.pBuf 0 := rfl
  dsimp only [Ending.after] at hlen ⊢
  rw [hsame]
  by_cases hheader : r.pBuf 0 = startByte ∧ packetSize = minPacketSize
  · have hthree : r.received.length = 3 := hlen hheader.2
    rw [if_pos hheader, if_pos hheader]
    generalize hnewSize : (r.pBuf packetSizeOffset).toNat = newSize
    have hread : (r.inBuffer.pBuf 1).toNat = newSize := hnewSize
    have hbyte : newSize ≤ 255 := by
      rw [← hnewSize]
      exact Nat.le_of_lt_succ (UInt8.toNat_lt _)
    let start : Reading := { r with retries := maxRetries }
    have hstart : start.received.length = 3 := hthree
    have hreceive : receive line (newSize + minPacketSize) fuel start.inBuffer =
        .done (fill line (newSize + minPacketSize) start).inBuffer :=
      receive_eq (by unfold minPacketSize; omega)
        (by unfold maxPacketSize; omega) (Nat.le_refl _) hfuel
    have hkept : (fill line (newSize + minPacketSize) start).pBuf 1 = r.pBuf 1 :=
      pBuf_fillUpTo (r := start) (by omega) _
    rw [hread, show { r.inBuffer with retries := maxRetries } = start.inBuffer from rfl, hreceive]
    refine verify_inBuffer _ packetSize ?_
    rw [hkept]
    exact hnewSize
  · rw [if_neg hheader, if_neg hheader]

/-! ## Totality -/

/-- The header of a packet arrives with a size but with no bytes for each reading, and all its data
arrive, too. -/
def Line.DividesByZero (line : Line) (p : Port) : Prop :=
  ∃ c, line.HeaderArrives p c ∧ 0 < line.size p ∧ line.bytesPerReading p = 0 ∧
    ∃ j, line.Arrives maxRetries c (line.size p) j

/-- `recvPacket` divides by zero on such lines only. -/
theorem recvPacket_eq_none_iff (line : Line) (p : Port) :
    recvPacket line p = none ↔ line.DividesByZero p := by
  constructor
  · intro hnone
    by_cases hheader : ∃ c, line.HeaderArrives p c
    · obtain ⟨c, hc⟩ := hheader
      obtain ⟨r, -, -, harrives, hvalue⟩ := recvPacket_of_header hc
      rw [hnone] at hvalue
      split_ifs at hvalue with hfull hzero
      exact ⟨c, hc, hfull.1, hzero, harrives.mp hfull.2⟩
    · obtain ⟨r, hvalue⟩ := recvPacket_of_not_header (not_exists.mp hheader)
      rw [hnone] at hvalue
      cases hvalue
  · rintro ⟨c, hc, hsize, hzero, hdata⟩
    obtain ⟨r, -, -, harrives, hvalue⟩ := recvPacket_of_header hc
    rw [hvalue, if_pos ⟨hsize, harrives.mpr hdata⟩, if_pos hzero]

/-- A loop that has ended is not changed by more fuel. -/
theorem receive_mono {n m : ℕ} (hnm : n ≤ m) {v : Variables}
    (h : receive line target n v ≠ .running) :
    receive line target m v = receive line target n v :=
  Loop.whileLoop_mono hnm h

theorem recvHeaderIn_mono {n m : ℕ} (hnm : n ≤ m) {v : Variables}
    (h : recvHeaderIn line n v ≠ .running) : recvHeaderIn line m v = recvHeaderIn line n v := by
  unfold recvHeaderIn at h ⊢
  have hfirst : receive line 1 n v ≠ .running := fun hrunning => h (by rw [hrunning]; rfl)
  rw [receive_mono hnm hfirst]
  cases hv : receive line 1 n v with
  | running => exact absurd hv hfirst
  | fault => rfl
  | done w =>
    rw [hv] at h
    simp only [Outcome.done_bind] at h ⊢
    split_ifs at h ⊢
    · have hsecond : receive line minPacketSize n w ≠ .running :=
        fun hrunning => h (by rw [hrunning]; rfl)
      rw [receive_mono hnm hsecond]
    · rfl

theorem recvPacketIn_mono {n m : ℕ} (hnm : n ≤ m) (h : recvPacketIn line n p ≠ .running) :
    recvPacketIn line m p = recvPacketIn line n p := by
  unfold recvPacketIn at h ⊢
  have hheader : recvHeaderIn line n ⟨p, fun _ => 0, 0, maxRetries⟩ ≠ .running :=
    fun hrunning => h (by rw [hrunning]; rfl)
  rw [recvHeaderIn_mono hnm hheader]
  cases hv : recvHeaderIn line n ⟨p, fun _ => 0, 0, maxRetries⟩ with
  | running => exact absurd hv hheader
  | fault => rfl
  | done r =>
    rw [hv] at h
    dsimp only [Ending.after] at h ⊢
    split_ifs at h ⊢
    · have hdata : receive line ((r.2.pBuf 1).toNat + minPacketSize) n
          { r.2 with retries := maxRetries } ≠ .running :=
        fun hrunning => h (by rw [hrunning])
      rw [receive_mono hnm hdata]
    · rfl

/-- With any fuel `recvPacket` goes on, or it has ended as `recvPacket` says. -/
theorem recvPacketIn_cases (line : Line) (p : Port) (fuel : ℕ) :
    recvPacketIn line fuel p = .running ∨
      recvPacketIn line fuel p =
        match recvPacket line p with
        | none => .divided
        | some (n, _) => .returned n := by
  by_cases hrunning : recvPacketIn line fuel p = .running
  · exact .inl hrunning
  · right
    rw [← recvPacketIn_mono (Nat.le_add_left fuel (maxPacketSize + maxRetries)) hrunning]
    exact recvPacketIn_eq (Nat.le_add_right _ _)

/-- Whatever the line does, `recvPacket` ends, and whenever it has ended it has not written behind
its buffer. -/
theorem recvPacketIn_inside (line : Line) (p : Port) :
    (∃ fuel, recvPacketIn line fuel p ≠ .running) ∧
      ∀ fuel, recvPacketIn line fuel p ≠ .outside := by
  constructor
  · refine ⟨maxPacketSize + maxRetries, ?_⟩
    rw [recvPacketIn_eq (Nat.le_refl _)]
    cases recvPacket line p <;> exact Ending.noConfusion
  · intro fuel
    rcases recvPacketIn_cases line p fuel with hrunning | hended
    · rw [hrunning]
      exact Ending.noConfusion
    · rw [hended]
      cases recvPacket line p <;> exact Ending.noConfusion

/-- `recvPacket` ends, does not write behind its buffer and does not divide by zero, exactly when
the line does not bring a whole packet that has data but no bytes for each reading. -/
theorem recvPacket_total_iff (line : Line) (p : Port) :
    ((∃ fuel, recvPacketIn line fuel p ≠ .running) ∧
        ∀ fuel, recvPacketIn line fuel p ≠ .outside ∧ recvPacketIn line fuel p ≠ .divided) ↔
      ¬ line.DividesByZero p := by
  obtain ⟨hends, hinside⟩ := recvPacketIn_inside line p
  rw [← recvPacket_eq_none_iff]
  constructor
  · rintro ⟨-, hfaults⟩ hnone
    refine (hfaults (maxPacketSize + maxRetries)).2 ?_
    rw [recvPacketIn_eq (Nat.le_refl _), hnone]
  · intro hsome
    refine ⟨hends, fun fuel => ⟨hinside fuel, ?_⟩⟩
    rcases recvPacketIn_cases line p fuel with hrunning | hended
    · rw [hrunning]
      exact Ending.noConfusion
    · rw [hended]
      cases hvalue : recvPacket line p with
      | none => exact absurd hvalue hsome
      | some r => exact Ending.noConfusion

/-- A line on which a packet arrives that has one byte of data and no bytes for each reading. -/
def noBytesPerReading : Line where
  byte := fun i => [startByte, 1, 0, 7].getD i 0
  found := fun _ => 1
  good := fun _ => true

/-- It makes the program divide by zero. -/
theorem no_bytes_per_reading_divided : recvPacketIn noBytesPerReading 200 ⟨0, 0⟩ = .divided := by
  decide +kernel

end Guillemot.Flood
