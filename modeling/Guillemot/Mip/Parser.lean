import Guillemot.Mip.Parsing

/-!
# The packet parser makes the decisions of the scanner

`At` says which bytes the interface has not settled yet, whatever stage the parser is in. A call of
the parser settles some of them (`At.parseInputBuffer`), and unless something did not come in time
it goes on until the scanner waits, or settles at least one byte; bytes that arrive are behind the
others. So the events of a run, without timeouts, are those of the scanner on the whole stream,
however the bytes arrive (`run_scan`).
-/

namespace Guillemot.Mip

variable {find : UInt8 → Option ℕ} {i : Interface} {xs ys zs rest : List UInt8} {es : List Event}
  {n : ℕ} {x descriptorSet payloadSize : UInt8}

/-- The bytes that are not settled, by the stage of the parser: before a start byte, with one, or
with a header that is still in the ring buffer. -/
inductive Stage (i : Interface) : List UInt8 → Prop where
  | idle {xs : List UInt8} (hcount : i.byteCount = 0) (hb : Holds i.inputBuffer xs) : Stage i xs
  | started {xs : List UInt8} (hcount : i.byteCount = 1) (hp : i.mipPacket 0 = syncByte1)
      (hb : Holds i.inputBuffer xs) : Stage i (syncByte1 :: xs)
  | headed {descriptorSet payloadSize : UInt8} {rest : List UInt8}
      (hcount : i.byteCount = headerSize)
      (hp : i.mipPacket.bytes 0 headerSize = [syncByte1, syncByte2, descriptorSet, payloadSize])
      (hb : Holds i.inputBuffer (syncByte2 :: descriptorSet :: payloadSize :: rest)) :
      Stage i (syncByte1 :: syncByte2 :: descriptorSet :: payloadSize :: rest)

/-- The interface with the bytes that it has not settled. -/
structure At (find : UInt8 → Option ℕ) (i : Interface) (xs : List UInt8) : Prop where
  ready : i.initialized = true
  callbacks : i.findCallback = find
  stage : Stage i xs

/-- What the parser counts, and whether its last packet was valid. -/
structure Stats where
  inSync : Bool
  headersSkipped : ℕ
  timeouts : ℕ
  numBadChecksums : ℕ

/-- What the interface has counted. -/
def Interface.stats (i : Interface) : Stats :=
  ⟨i.inSync, i.headersSkipped, i.timeouts, i.numBadChecksums⟩

/-- An event is counted. A wrong checksum counts behind a valid packet only. -/
def Stats.tally (s : Stats) : Event → Stats
  | .headerSkipped => { s with inSync := false, headersSkipped := u32 (s.headersSkipped + 1) }
  | .headerTimeout => { s with inSync := false, timeouts := u32 (s.timeouts + 1) }
  | .packet .validPacket _ _ => { s with inSync := true }
  | .packet .checksumError _ _ =>
    { s with
      inSync := false
      numBadChecksums := if s.inSync then u32 (s.numBadChecksums + 1) else s.numBadChecksums }
  | .packet .timeout _ _ => { s with inSync := false, timeouts := u32 (s.timeouts + 1) }

/-- A call goes on until the scanner waits, or settles something. -/
def Progress (find : UInt8 → Option ℕ) (xs : List UInt8) (es : List Event) (ys : List UInt8) :
    Prop :=
  (∀ e ∈ es, e.isTimeout = false) → decision find ys = none ∨ ys.length < xs.length

/-! ## The start byte -/

/-- Bytes in front of a start byte are left out. -/
theorem reads_skip (h : syncByte1 ∉ zs) (ys : List UInt8) : Reads find (zs ++ ys) [] ys := by
  induction zs with
  | nil => exact .done ys
  | cons z zs ih =>
    rw [List.mem_cons, not_or] at h
    exact .decided (decision_of_ne (Ne.symm h.1)) (ih h.2)

/-- The loop that looks for a start byte finds the first one, if there is one. -/
theorem seek_cases (now fuel : ℕ) (hcount : i.byteCount = 0) (hb : Holds i.inputBuffer xs)
    (hfuel : xs.length < fuel) :
    (syncByte1 ∉ xs ∧ ∃ b m,
      Interface.seek now fuel i = { i with inputBuffer := b, mipPacket := m } ∧ Holds b []) ∨
    ∃ zs ys b m, xs = zs ++ syncByte1 :: ys ∧ syncByte1 ∉ zs ∧
      Interface.seek now fuel i =
        { i with inputBuffer := b, mipPacket := m, byteCount := 1, startTime := now } ∧
      m 0 = syncByte1 ∧ Holds b ys := by
  induction xs generalizing i fuel with
  | nil =>
    obtain ⟨fuel, rfl⟩ := Nat.exists_eq_succ_of_ne_zero (Nat.ne_of_gt hfuel)
    have hnone : ¬(i.byteCount = 0 ∧ i.inputBuffer.count ≠ 0) := by
      rw [hb.count]
      exact fun h => h.2 rfl
    exact .inl ⟨List.not_mem_nil, i.inputBuffer, i.mipPacket, if_neg hnone, hb⟩
  | cons x xs ih =>
    obtain ⟨fuel, rfl⟩ := Nat.exists_eq_succ_of_ne_zero (Nat.ne_of_gt (Nat.lt_of_le_of_lt
      (Nat.zero_le _) hfuel))
    have hsome : i.byteCount = 0 ∧ i.inputBuffer.count ≠ 0 := by
      rw [hb.count]
      exact ⟨hcount, Nat.succ_ne_zero _⟩
    obtain ⟨b, hread, hb'⟩ := hb.read
    have hfirst : i.mipPacket.copy 0 [x] 0 = x := rfl
    rw [List.length_cons] at hfuel
    by_cases hx : x = syncByte1
    · subst hx
      have hseek : Interface.seek now (fuel + 1) i = Interface.seek now fuel
          { i with
            inputBuffer := b
            mipPacket := i.mipPacket.copy 0 [syncByte1]
            byteCount := 1
            startTime := now } := by
        rw [Interface.seek, if_pos hsome, hread]
        exact if_pos ⟨rfl, hfirst⟩
      have hstop (fuel : ℕ) (j : Interface) (hj : j.byteCount = 1) :
          Interface.seek now fuel j = j := by
        cases fuel with
        | zero => rfl
        | succ fuel => exact if_neg fun h => by rw [hj] at h; cases h.1
      exact .inr ⟨[], xs, b, i.mipPacket.copy 0 [syncByte1], rfl, List.not_mem_nil,
        by rw [hseek, hstop _ _ rfl], hfirst, hb'⟩
    · have hseek : Interface.seek now (fuel + 1) i = Interface.seek now fuel
          { i with inputBuffer := b, mipPacket := i.mipPacket.copy 0 [x] } := by
        rw [Interface.seek, if_pos hsome, hread]
        exact if_neg fun h => hx h.2
      rcases ih (i := { i with inputBuffer := b, mipPacket := i.mipPacket.copy 0 [x] }) fuel hcount
        hb' (by omega) with ⟨hnone, b', m', heq, hnil⟩ | ⟨zs, ys, b', m', rfl, hzs, heq, hm, hys⟩
      · refine .inl ⟨?_, b', m', hseek.trans heq, hnil⟩
        rw [List.mem_cons, not_or]
        exact ⟨Ne.symm hx, hnone⟩
      · refine .inr ⟨x :: zs, ys, b', m', rfl, ?_, hseek.trans heq, hm, hys⟩
        rw [List.mem_cons, not_or]
        exact ⟨Ne.symm hx, hzs⟩

/-! ## The header and the packet -/

/-- Bytes of the ring buffer are copied to the packet. -/
theorem peek_eq (hb : Holds i.inputBuffer xs) (offset place : ℕ) (hn : offset + n ≤ xs.length) :
    i.peek offset place n =
      { i with mipPacket := i.mipPacket.copy place ((xs.drop offset).take n) } := by
  have hloop : (List.range n).foldl (fun m k => i.peekByte (offset + k) (place + k) m)
      i.mipPacket = i.mipPacket.copy place ((xs.drop offset).take n) := by
    induction n with
    | zero =>
      funext a
      exact (if_neg (by simp)).symm
    | succ n ih =>
      have hlt : offset + n < xs.length := by omega
      have hlen : ((xs.drop offset).take n).length = n := by
        rw [List.length_take, List.length_drop]
        omega
      have hbyte (m : Memory) : i.peekByte (offset + n) (place + n) m =
          m.copy (place + n) [xs[offset + n]] := by
        rw [Interface.peekByte, hb.lookaheadRead hlt]
      have happend := i.mipPacket.copy_append place ((xs.drop offset).take n) [xs[offset + n]]
      rw [hlen] at happend
      have htake : (xs.drop offset).take (n + 1) = (xs.drop offset).take n ++ [xs[offset + n]] := by
        rw [List.take_add_one, List.getElem?_drop, List.getElem?_eq_getElem hlt]
        rfl
      rw [List.range_succ, List.foldl_append, ih (by omega), htake]
      exact (hbyte _).trans happend
  unfold Interface.peek
  rw [hloop]

/-- What a part of the parser does, whatever comes in time: some bytes are settled, and the events
are counted. -/
def Settles (find : UInt8 → Option ℕ) (s : Stats) (xs : List UInt8)
    (r : List Event × Interface) : Prop :=
  ∃ ys, At find r.2 ys ∧ Reads find xs r.1 ys ∧ Progress find xs r.1 ys ∧
    r.2.stats = r.1.foldl Stats.tally s

/-- Nothing is settled where the scanner waits. -/
theorem settles_none (h : At find i xs) (hwait : decision find xs = none) :
    Settles find i.stats xs ([], i) := ⟨xs, h, .done xs, fun _ => .inl hwait, rfl⟩

/-- A start byte is given up. -/
theorem settles_timeout {e : Event} {j : Interface} {s : Stats} (hj : At find j ys)
    (he : e.isTimeout = true) (hreads : Reads find xs [e] ys) (hs : j.stats = s.tally e) :
    Settles find s xs ([e], j) := by
  refine ⟨ys, hj, hreads, fun hno => ?_, hs⟩
  have hfalse := hno e List.mem_cons_self
  rw [he] at hfalse
  cases hfalse

/-- A decision is made. -/
theorem settles_decision {e : Event} {j : Interface} {s : Stats}
    (h : decision find xs = some ([e], n)) (hj : At find j (xs.drop n))
    (hs : j.stats = s.tally e) : Settles find s xs ([e], j) := by
  refine ⟨xs.drop n, hj, .one h, fun _ => .inr ?_, hs⟩
  obtain ⟨hpos, hle⟩ := decision_bounds h
  rw [List.length_drop]
  omega

/-- The part that gets the header leaves the start byte for the packet, or settles something. -/
theorem getHeader_cases (later : ℕ) (hready : i.initialized = true) (hfind : i.findCallback = find)
    (hcount : i.byteCount = 1) (hp : i.mipPacket 0 = syncByte1) (hb : Holds i.inputBuffer ys) :
    ((i.getHeader later).1 = [] ∧ (i.getHeader later).2.byteCount = headerSize ∧
        (i.getHeader later).2.stats = i.stats ∧
        At find (i.getHeader later).2 (syncByte1 :: ys)) ∨
      ((i.getHeader later).2.byteCount < headerSize ∧
        Settles find i.stats (syncByte1 :: ys) (i.getHeader later)) := by
  have hsmall : i.byteCount < headerSize := by
    rw [hcount]
    decide
  rcases Nat.lt_or_ge ys.length 3 with hshort | hlong
  · -- There is no header yet.
    have hfew : ¬headerSize - 1 ≤ i.inputBuffer.count := by
      rw [hb.count]
      exact Nat.not_le.mpr hshort
    refine .inr ?_
    unfold Interface.getHeader
    rw [if_neg hfew]
    split_ifs
    · exact ⟨Nat.succ_pos 3,
        settles_timeout ⟨hready, hfind, .idle rfl hb⟩ rfl (.headerTimeout (.done ys)) rfl⟩
    · exact ⟨hsmall, settles_none ⟨hready, hfind, .started hcount hp hb⟩ (decision_of_short hshort)⟩
  · match ys, hlong, hb with
    | a :: set :: size :: rest, _, hb =>
      have hpeek : i.peek 0 1 (headerSize - 1) =
          { i with mipPacket := i.mipPacket.copy 1 [a, set, size] } :=
        peek_eq hb 0 1 (Nat.le_add_left 3 rest.length)
      have hmany : headerSize - 1 ≤ i.inputBuffer.count := by
        rw [hb.count]
        exact Nat.le_add_left 3 rest.length
      have hfits : Memory.payload (i.mipPacket.copy 1 [a, set, size]) + headerSize + checksumSize ≤
          maxPacketSize := by
        have hbyte := size.toNat_lt
        show size.toNat + 4 + 2 ≤ 261
        omega
      unfold Interface.getHeader
      rw [if_pos hmany, hpeek]
      by_cases ha : a = syncByte2
      · subst ha
        refine .inl ?_
        dsimp only
        rw [if_pos ⟨rfl, hfits⟩]
        refine ⟨rfl, rfl, rfl, hready, hfind, .headed rfl ?_ hb⟩
        rw [← hp]
        rfl
      · refine .inr ?_
        dsimp only
        rw [if_neg fun h => ha h.1]
        exact ⟨Nat.succ_pos 3,
          settles_decision (decision_of_skipped ha) ⟨hready, hfind, .idle rfl hb⟩ rfl⟩

/-- A callback changes what the interface knows of command responses at most. -/
theorem trigger_eq (i : Interface) (callbackType : CallbackType) :
    ∃ received id acknack data size, i.trigger callbackType =
      { i with
        commandResponseReceived := received
        commandId := id
        commandAcknackResponse := acknack
        commandResponseData := data
        commandResponseDataSize := size } := by
  unfold Interface.trigger
  split
  · unfold Interface.commandResponseHandler
    dsimp only
    split_ifs <;> exact ⟨_, _, _, _, _, rfl⟩
  · exact ⟨_, _, _, _, _, rfl⟩

/-- A header in the packet of the interface. -/
theorem header_of_bytes {m : Memory}
    (hp : m.bytes 0 headerSize = [syncByte1, syncByte2, descriptorSet, payloadSize]) :
    m 0 = syncByte1 ∧ m 1 = syncByte2 ∧ m 2 = descriptorSet ∧ m.payload = payloadSize.toNat := by
  obtain ⟨h0, h1, h2, h3, -⟩ : m 0 = syncByte1 ∧ m 1 = syncByte2 ∧ m 2 = descriptorSet ∧
      m 3 = payloadSize ∧ True := by simpa [Memory.bytes, List.range_succ, headerSize] using hp
  exact ⟨h0, h1, h2, congrArg UInt8.toNat h3⟩

/-- The part that gets the packet settles something, or waits. -/
theorem settles_getPacket (later : ℕ) (hready : i.initialized = true)
    (hfind : i.findCallback = find) (hcount : i.byteCount = headerSize)
    (hp : i.mipPacket.bytes 0 headerSize = [syncByte1, syncByte2, descriptorSet, payloadSize])
    (hb : Holds i.inputBuffer (syncByte2 :: descriptorSet :: payloadSize :: rest)) :
    Settles find i.stats (syncByte1 :: syncByte2 :: descriptorSet :: payloadSize :: rest)
      (i.getPacket later) := by
  obtain ⟨-, -, hset, hpayload⟩ := header_of_bytes hp
  have hbuffered : i.inputBuffer.count = 3 + rest.length := by
    rw [hb.count]
    exact Nat.add_comm rest.length 3
  rcases Nat.lt_or_ge rest.length (payloadSize.toNat + checksumSize) with hwait | hall
  · -- The packet is not all there.
    have hfew : ¬headerSize - 1 + i.mipPacket.payload + checksumSize ≤ i.inputBuffer.count := by
      rw [hbuffered, hpayload]
      unfold headerSize
      omega
    unfold Interface.getPacket
    rw [if_neg hfew]
    split_ifs
    · obtain ⟨received, id, acknack, data, size, htrigger⟩ := trigger_eq i .timeout
      rw [htrigger]
      exact settles_timeout ⟨hready, hfind, .idle rfl hb⟩ rfl (.timeout _ (.done _)) rfl
    · exact settles_none ⟨hready, hfind, .headed hcount hp hb⟩ (decision_of_waiting hwait)
  · have hmany : headerSize - 1 + i.mipPacket.payload + checksumSize ≤ i.inputBuffer.count := by
      rw [hbuffered, hpayload]
      unfold headerSize
      omega
    have htake : (rest.take (payloadSize.toNat + checksumSize)).length =
        payloadSize.toNat + checksumSize := by
      rw [List.length_take, Nat.min_eq_left hall]
    -- The packet of the interface is what is in front of the stream.
    obtain ⟨m, hm⟩ : ∃ m, m = i.mipPacket.copy headerSize
      (rest.take (payloadSize.toNat + checksumSize)) := ⟨_, rfl⟩
    have hpeek : i.peek (headerSize - 1) headerSize (i.mipPacket.payload + checksumSize) =
        { i with mipPacket := m } := by
      rw [hpayload, hm]
      refine peek_eq hb _ _ ?_
      rw [← hb.count, hbuffered]
      unfold headerSize
      omega
    have hkept : m.bytes 0 headerSize = [syncByte1, syncByte2, descriptorSet, payloadSize] := by
      rw [hm, Memory.bytes_copy_of_disjoint (Or.inl (Nat.le_of_eq (Nat.zero_add _))), hp]
    obtain ⟨h0, h1, hset', hpayload'⟩ := header_of_bytes hkept
    have hbytes : m.bytes 0 (headerSize + (payloadSize.toNat + checksumSize)) =
        packetOf descriptorSet payloadSize rest := by
      rw [Memory.bytes_add, hkept, Nat.zero_add, hm]
      have hself := i.mipPacket.bytes_copy_self headerSize
        (rest.take (payloadSize.toNat + checksumSize))
      rw [htake] at hself
      rw [hself]
      rfl
    have hvalid : m.isChecksumValid = .ok ↔
        Fletcher.Sealed (packetOf descriptorSet payloadSize rest) := by
      rw [isChecksumValid_iff (isMipPacket_iff.mpr ⟨h0, h1⟩), hpayload', ← hbytes,
        Nat.add_comm payloadSize.toNat headerSize, Nat.add_assoc]
    unfold Interface.getPacket
    rw [if_pos hmany, hpeek]
    dsimp only
    by_cases hsealed : Fletcher.Sealed (packetOf descriptorSet payloadSize rest)
    · obtain ⟨received, id, acknack, data, size, htrigger⟩ :=
        trigger_eq { i with mipPacket := m } .validPacket
      have hevent : Interface.event { i with mipPacket := m } .validPacket
          (i.byteCount + (m.payload + checksumSize)) =
          .packet .validPacket (packetOf descriptorSet payloadSize rest) (find descriptorSet) := by
        show Event.packet .validPacket (m.bytes 0 (i.byteCount + (m.payload + checksumSize)))
          (i.findCallback (m 2)) = _
        rw [hcount, hpayload', hbytes, hset', hfind]
      rw [if_pos (hvalid.mpr hsealed), hevent, htrigger]
      refine settles_decision (decision_of_sealed hall hsealed) ⟨hready, hfind, .idle rfl ?_⟩ rfl
      have hconsumed := hb.consumeEntries (i.byteCount + (m.payload + checksumSize) - 1)
      have hdrop : (syncByte2 :: descriptorSet :: payloadSize :: rest).drop
          (i.byteCount + (m.payload + checksumSize) - 1) =
          (syncByte1 :: syncByte2 :: descriptorSet :: payloadSize :: rest).drop
            (packetOf descriptorSet payloadSize rest).length := by
        rw [length_packetOf hall, hcount, hpayload']
        rfl
      rwa [hdrop] at hconsumed
    · obtain ⟨received, id, acknack, data, size, htrigger⟩ :=
        trigger_eq { i with mipPacket := m } .checksumError
      have hevent : Interface.event { i with mipPacket := m } .checksumError i.byteCount =
          .packet .checksumError [syncByte1, syncByte2, descriptorSet, payloadSize]
            (find descriptorSet) := by
        show Event.packet .checksumError (m.bytes 0 i.byteCount) (i.findCallback (m 2)) = _
        rw [hcount, hkept, hset', hfind]
      rw [if_neg fun h => hsealed (hvalid.mp h), hevent, htrigger]
      exact settles_decision (decision_of_not_sealed hall hsealed) ⟨hready, hfind, .idle rfl hb⟩ rfl

/-! ## A call of the parser -/

/-- Bytes that are left out first. -/
theorem settles_skip {r : List Event × Interface} {s : Stats} (hzs : syncByte1 ∉ zs)
    (h : Settles find s ys r) : Settles find s (zs ++ ys) r := by
  obtain ⟨ws, hat, hreads, hprogress, hs⟩ := h
  refine ⟨ws, hat, (reads_skip hzs ys).trans hreads, fun hno => ?_, hs⟩
  rcases hprogress hno with hwait | hlt
  · exact .inl hwait
  · rw [List.length_append]
    exact .inr (Nat.lt_of_lt_of_le hlt (Nat.le_add_left _ _))

/-- The search for a start condition leaves a header for the packet, or settles something. -/
theorem At.findStart (h : At find i xs) (now later : ℕ) :
    (∃ zs ys, xs = zs ++ ys ∧ syncByte1 ∉ zs ∧ (i.findStart now later).1 = [] ∧
      (i.findStart now later).2.byteCount = headerSize ∧
      (i.findStart now later).2.stats = i.stats ∧ At find (i.findStart now later).2 ys) ∨
    ((i.findStart now later).2.byteCount < headerSize ∧
      Settles find i.stats xs (i.findStart now later)) := by
  obtain ⟨hready, hfind, hstage⟩ := h
  cases hstage with
  | idle hcount hb =>
    have hfuel : xs.length < i.inputBuffer.count + 1 := by
      rw [hb.count]
      exact Nat.lt_succ_self _
    have hlt : i.byteCount < headerSize := by
      rw [hcount]
      exact Nat.succ_pos 3
    unfold Interface.findStart
    rw [if_pos hlt]
    rcases seek_cases now _ hcount hb hfuel with ⟨hnone, b, m, heq, hb'⟩ |
      ⟨zs, ys, b, m, rfl, hzs, heq, hm, hb'⟩
    · -- There is no start byte.
      have hidle : ¬0 < i.byteCount := by
        rw [hcount]
        exact Nat.lt_irrefl 0
      have hat : At find { i with inputBuffer := b, mipPacket := m } [] :=
        ⟨hready, hfind, .idle hcount hb'⟩
      have hskip := settles_skip hnone (settles_none hat rfl)
      rw [List.append_nil] at hskip
      rw [heq, if_neg hidle]
      exact .inr ⟨hlt, hskip⟩
    · rw [heq, if_pos Nat.zero_lt_one]
      rcases getHeader_cases later
        (i := { i with inputBuffer := b, mipPacket := m, byteCount := 1, startTime := now })
        hready hfind rfl hm hb' with ⟨hes, hcount', hstats, hat⟩ | ⟨hcount', hsettles⟩
      · exact .inl ⟨zs, _, rfl, hzs, hes, hcount', hstats, hat⟩
      · exact .inr ⟨hcount', settles_skip hzs hsettles⟩
  | started hcount hp hb =>
    have hlt : i.byteCount < headerSize := by
      rw [hcount]
      exact Nat.lt_of_sub_eq_succ rfl
    have hseek : Interface.seek now (i.inputBuffer.count + 1) i = i :=
      if_neg fun h => by rw [hcount] at h; cases h.1
    have hpos : 0 < i.byteCount := by
      rw [hcount]
      exact Nat.zero_lt_one
    unfold Interface.findStart
    rw [if_pos hlt, hseek, if_pos hpos]
    rcases getHeader_cases later hready hfind hcount hp hb with
      ⟨hes, hcount', hstats, hat⟩ | ⟨hcount', hsettles⟩
    · exact .inl ⟨[], _, rfl, List.not_mem_nil, hes, hcount', hstats, hat⟩
    · exact .inr ⟨hcount', hsettles⟩
  | headed hcount hp hb =>
    have hge : ¬i.byteCount < headerSize := by
      rw [hcount]
      exact Nat.lt_irrefl _
    unfold Interface.findStart
    rw [if_neg hge]
    exact .inl
      ⟨[], _, rfl, List.not_mem_nil, rfl, hcount, rfl, hready, hfind, .headed hcount hp hb⟩

/-- What a call of the parser does. -/
theorem At.parseInputBuffer (h : At find i xs) (now later : ℕ) :
    Settles find i.stats xs (i.parseInputBuffer now later) := by
  have hstart := h.findStart now later
  unfold Interface.parseInputBuffer
  rw [if_pos h.ready]
  revert hstart
  generalize i.findStart now later = r
  rintro (⟨zs, ys, rfl, hzs, hes, hcount, hstats, hat⟩ | ⟨hcount, hsettles⟩)
  · dsimp only
    rw [if_pos (Nat.le_of_eq hcount.symm), hes, ← hstats]
    obtain ⟨hready, hfind, hstage⟩ := hat
    refine settles_skip hzs ?_
    cases hstage with
    | idle hcount' => rw [hcount'] at hcount; cases hcount
    | started hcount' => rw [hcount'] at hcount; cases hcount
    | headed hcount' hp hb => exact settles_getPacket later hready hfind hcount' hp hb
  · dsimp only
    rw [if_neg (Nat.not_le.mpr hcount), List.append_nil]
    exact hsettles

end Guillemot.Mip
