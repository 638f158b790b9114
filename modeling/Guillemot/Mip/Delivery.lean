import Guillemot.Mip.Parser

/-!
# What the program gets of a stream

Runs of an interface: the program and the port bring bytes in pieces of any size, and every call of
`mip_interface_update` calls the parser once. `run` collects the bytes that went into the ring
buffer, the events, and the interface at the end.

Whatever comes in time, the packets that are reported as valid are slices of the stream
(`run_slices`), and the counters are those of the events. Without timeouts the events are those of
the scanner, of the whole stream when the parser is called often enough behind it (`run_scan`); so
packets that were built with `mip_finalize` are delivered as they were built, each once
(`run_encode`).
-/

namespace Guillemot.Mip

/-- What the program does with an interface. -/
inductive Action where
  | write (data : List UInt8)
  | update (port : Interface.Port) (now later : ℕ)

namespace Interface

/-- An action: the bytes that go into the ring buffer, the events, and the interface. -/
def act (i : Interface) : Action → List UInt8 × List Event × Interface
  | .write data => (data.take (i.write data).1, [], (i.write data).2)
  | .update port now later => (port.read (i.askedFor port), i.update port now later)

/-- Some actions, one after the other. -/
def run : List Action → Interface → List UInt8 × List Event × Interface
  | [], i => ([], [], i)
  | action :: actions, i =>
    let (bytes, es, i) := i.act action
    let (stream, es', i) := run actions i
    (bytes ++ stream, es ++ es', i)

/-- Callbacks are added, one after the other, as long as there is room. -/
def addCallbacks (callbacks : List (UInt8 × Option ℕ × Option CallbackFunction)) (i : Interface) :
    Interface :=
  callbacks.foldl (fun i (dataSet, userPtr, packetCallback) =>
    (i.addDescriptorSetCallback dataSet userPtr packetCallback).getD i) i

end Interface

variable {find : UInt8 → Option ℕ} {i : Interface} {xs ys : List UInt8} {es : List Event}

/-! ## Actions -/

/-- The interface of a program, with its callbacks. -/
theorem at_addCallbacks (m : Memory) (packetTimeoutVal : ℕ)
    (callbacks : List (UInt8 × Option ℕ × Option CallbackFunction)) :
    let i := (Interface.init m packetTimeoutVal).addCallbacks callbacks
    At i.findCallback i [] ∧ i.stats = ⟨false, 0, 0, 0⟩ := by
  have hkept : ∀ (i : Interface), i.initialized = true → i.byteCount = 0 →
      Holds i.inputBuffer [] → i.stats = ⟨false, 0, 0, 0⟩ →
      At (i.addCallbacks callbacks).findCallback (i.addCallbacks callbacks) [] ∧
        (i.addCallbacks callbacks).stats = ⟨false, 0, 0, 0⟩ := by
    induction callbacks with
    | nil => exact fun i hready hcount hb hs => ⟨⟨hready, rfl, .idle hcount hb⟩, hs⟩
    | cons callback callbacks ih =>
      intro i hready hcount hb hs
      obtain ⟨dataSet, userPtr, packetCallback⟩ := callback
      have hadd : ∃ d f u, (i.addDescriptorSetCallback dataSet userPtr packetCallback).getD i =
          { i with
            callbackDataSetList := d
            callbackFunctionList := f
            callbackUserPtrList := u } := by
        unfold Interface.addDescriptorSetCallback
        cases (List.range' 1 maxCallbacks).find? _ with
        | none => exact ⟨_, _, _, rfl⟩
        | some slot => exact ⟨_, _, _, rfl⟩
      obtain ⟨d, f, u, heq⟩ := hadd
      have hnext := ih { i with
        callbackDataSetList := d
        callbackFunctionList := f
        callbackUserPtrList := u } hready hcount hb hs
      rw [← heq] at hnext
      exact hnext
  exact hkept _ rfl rfl (holds_init m) rfl

/-- Bytes that arrive in the ring buffer are behind the others. -/
theorem At.receive {b : RingBuffer} {bytes : List UInt8} (h : At find i xs)
    (hb : ∀ ys, Holds i.inputBuffer ys → Holds b (ys ++ bytes)) :
    At find { i with inputBuffer := b } (xs ++ bytes) := by
  obtain ⟨hready, hfind, hstage⟩ := h
  refine ⟨hready, hfind, ?_⟩
  cases hstage with
  | idle hcount hold => exact .idle hcount (hb _ hold)
  | started hcount hp hold => exact .started hcount hp (hb _ hold)
  | headed hcount hp hold => exact .headed hcount hp (hb _ hold)

/-- The loop of `mip_interface_write` writes bytes as long as there is room. -/
theorem Holds.writeBytes {b : RingBuffer} (data : List UInt8) (h : Holds b xs) :
    Holds (Interface.writeBytes data b).2 (xs ++ data.take (Interface.writeBytes data b).1) := by
  induction data generalizing b xs with
  | nil => simpa [Interface.writeBytes] using h
  | cons x data ih =>
    have hcount := h.currentCount
    have hmax := h.maxEntries
    rcases Nat.lt_or_ge xs.length inputRingBufferSize with hroom | hfull
    · have hwrite : b.write [x] = (.ok, (b.fill [x]).written) := by
        rw [RingBuffer.write, if_neg (by omega), if_neg (by simp), h.entrySize]
        exact if_neg (Nat.lt_irrefl 1)
      have hrest := ih (h.fill_written hroom x)
      rw [Interface.writeBytes, hwrite]
      dsimp only
      rw [List.take_succ_cons, List.append_cons]
      exact hrest
    · have hwrite : b.write [x] =
          (.full, { b with totalOverruns := u32 (b.totalOverruns + 1) }) := by
        rw [RingBuffer.write, if_pos (by omega)]
      rw [Interface.writeBytes, hwrite]
      dsimp only
      rw [List.take_zero, List.append_nil]
      exact
        ⟨⟨h.valid.ready, h.valid.twice, h.valid.bytes, h.valid.placed, h.valid.bounded⟩,
          h.maxEntries, h.entrySize, h.contents⟩

/-- `mip_interface_update` reads what has room, and calls the parser. -/
theorem At.update (h : At find i xs) (port : Interface.Port) (now later : ℕ) :
    Settles find i.stats (xs ++ port.read (i.askedFor port)) (i.update port now later) := by
  have hreceived : ∀ ys, Holds i.inputBuffer ys →
      Holds
        (if 0 < (port.read (i.askedFor port)).length then
          (i.inputBuffer.writeMulti (fun k => (port.read (i.askedFor port)).getD k 0)
            (port.read (i.askedFor port)).length).2.2
        else i.inputBuffer) (ys ++ port.read (i.askedFor port)) := by
    intro ys hb
    have hshort := port.short (i.askedFor port)
    have hasked : i.askedFor port ≤ i.inputBuffer.remainingEntries :=
      Nat.le_trans (Nat.min_le_left _ _) (Nat.min_le_right _ _)
    rw [hb.remainingEntries] at hasked
    have hle := hb.length_le
    split_ifs with hsome
    · exact hb.writeMulti _ (by omega)
    · have hnil : port.read (i.askedFor port) = [] := List.eq_nil_of_length_eq_zero (by omega)
      rw [hnil, List.append_nil]
      exact hb
  have hparse := (h.receive hreceived).parseInputBuffer now later
  unfold Interface.update
  rw [if_pos h.ready]
  exact hparse

/-- What an action does. -/
theorem At.act (h : At find i xs) (action : Action) :
    ∃ ys, At find (i.act action).2.2 ys ∧
      Reads find (xs ++ (i.act action).1) (i.act action).2.1 ys ∧
      (i.act action).2.2.stats = (i.act action).2.1.foldl Stats.tally i.stats := by
  cases action with
  | write data =>
    have hwrite : i.write data = ((Interface.writeBytes data i.inputBuffer).1,
        { i with inputBuffer := (Interface.writeBytes data i.inputBuffer).2 }) := if_pos h.ready
    have hat : At find (i.write data).2 (xs ++ data.take (i.write data).1) := by
      rw [hwrite]
      exact h.receive fun ys hb => hb.writeBytes data
    have hstats : (i.write data).2.stats = i.stats := by
      rw [hwrite]
      rfl
    exact ⟨_, hat, .done _, hstats⟩
  | update port now later =>
    obtain ⟨ys, hat, hreads, -, hstats⟩ := h.update port now later
    exact ⟨ys, hat, hreads, hstats⟩

/-! ## Runs -/

/-- What a run keeps, whatever comes in time. -/
theorem At.slices_run (actions : List Action) (h : At find i xs) {s : List UInt8}
    {ps : List (List UInt8)} (hs : Slices s ps xs) :
    ∃ ys, At find (i.run actions).2.2 ys ∧
      Slices (s ++ (i.run actions).1) (ps ++ validPackets (i.run actions).2.1) ys ∧
      (∀ p ∈ validPackets (i.run actions).2.1, ∃ descriptorSet payloadSize rest,
        p = packetOf descriptorSet payloadSize rest ∧
          payloadSize.toNat + checksumSize ≤ rest.length ∧ Fletcher.Sealed p) ∧
      (i.run actions).2.2.stats = (i.run actions).2.1.foldl Stats.tally i.stats := by
  induction actions generalizing i xs s ps with
  | nil =>
    refine ⟨xs, h, ?_, List.forall_mem_nil _, rfl⟩
    simpa [Interface.run, validPackets] using hs
  | cons action actions ih =>
    obtain ⟨ys, hat, hreads, hstats⟩ := h.act action
    obtain ⟨zs, hat', hslices, hsealed, hstats'⟩ :=
      ih hat (hreads.slices (hs.append (i.act action).1))
    rw [List.append_assoc, List.append_assoc, ← validPackets_append] at hslices
    refine ⟨zs, hat', hslices, fun p hp => ?_, ?_⟩
    · rw [Interface.run, validPackets_append] at hp
      exact (List.mem_append.mp hp).elim (hreads.sealed p) (hsealed p)
    · rw [Interface.run, List.foldl_append, ← hstats]
      exact hstats'

/-- What a run keeps without timeouts. -/
theorem At.scan_run (actions : List Action) (h : At find i xs)
    (hno : ∀ e ∈ (i.run actions).2.1, e.isTimeout = false) :
    ∃ ys, At find (i.run actions).2.2 ys ∧
      (scanner find).scan (xs ++ (i.run actions).1) =
        ((i.run actions).2.1 ++ ((scanner find).scan ys).1, ((scanner find).scan ys).2) := by
  induction actions generalizing i xs with
  | nil =>
    refine ⟨xs, h, ?_⟩
    rw [Interface.run, List.append_nil]
    rfl
  | cons action actions ih =>
    obtain ⟨ys, hat, hreads, -⟩ := h.act action
    have hno' : ∀ e ∈ (i.act action).2.1 ++ ((i.act action).2.2.run actions).2.1,
        e.isTimeout = false := hno
    obtain ⟨zs, hat', hscan⟩ := ih hat fun e he => hno' e (List.mem_append_right _ he)
    have hone := hreads.scan fun e he => hno' e (List.mem_append_left _ he)
    have hall := Scanner.scan_append_of hone ((i.act action).2.2.run actions).1
    rw [hscan, List.append_assoc, ← List.append_assoc (i.act action).2.1] at hall
    exact ⟨zs, hat', hall⟩

/-- A call of the parser that has no timeout does nothing where the scanner waits. -/
theorem Reads.of_none (h : Reads find xs es ys) (hwait : decision find xs = none)
    (hno : ∀ e ∈ es, e.isTimeout = false) : es = [] ∧ ys = xs := by
  cases h with
  | done => exact ⟨rfl, rfl⟩
  | decided hnext => rw [hwait] at hnext; cases hnext
  | headerTimeout => cases hno _ List.mem_cons_self
  | timeout => cases hno _ List.mem_cons_self

/-- A port without bytes. -/
def silent : Interface.Port := ⟨0, fun _ => [], fun _ => Nat.zero_le _⟩

/-- Calls of `mip_interface_update` while no bytes arrive, one for each byte, settle what they
can. -/
theorem At.run_silent (times : List (ℕ × ℕ)) (h : At find i xs)
    (hno : ∀ e ∈ (i.run (times.map fun t => .update silent t.1 t.2)).2.1, e.isTimeout = false)
    (hlen : decision find xs = none ∨ xs.length ≤ times.length) :
    ((scanner find).scan xs).1 = (i.run (times.map fun t => .update silent t.1 t.2)).2.1 := by
  induction times generalizing i xs with
  | nil =>
    have hwait : decision find xs = none := by
      rcases hlen with hwait | hnil
      · exact hwait
      · obtain rfl := List.eq_nil_of_length_eq_zero (Nat.le_zero.mp hnil)
        rfl
    rw [Scanner.scan_of_none hwait]
    rfl
  | cons t times ih =>
    obtain ⟨now, later⟩ := t
    obtain ⟨ys, hat, hreads, hprogress, -⟩ := h.update silent now later
    rw [show silent.read _ = [] from rfl, List.append_nil] at hreads hprogress
    rw [List.map_cons, Interface.run] at hno ⊢
    have hno1 : ∀ e ∈ (i.update silent now later).1, e.isTimeout = false :=
      fun e he => hno e (List.mem_append_left _ he)
    have hlen' : decision find ys = none ∨ ys.length ≤ times.length := by
      rcases hlen with hwait | hle
      · rw [(hreads.of_none hwait hno1).2]
        exact .inl hwait
      · rw [List.length_cons] at hle
        rcases hprogress hno1 with hwait | hlt
        · exact .inl hwait
        · exact .inr (by omega)
    have hrest := ih hat (fun e he => hno e (List.mem_append_right _ he)) hlen'
    rw [hreads.scan hno1]
    exact congrArg ((i.update silent now later).1 ++ ·) hrest

theorem run_append (actions actions' : List Action) (i : Interface) :
    i.run (actions ++ actions') =
      ((i.run actions).1 ++ ((i.run actions).2.2.run actions').1,
        (i.run actions).2.1 ++ ((i.run actions).2.2.run actions').2.1,
        ((i.run actions).2.2.run actions').2.2) := by
  induction actions generalizing i with
  | nil => rfl
  | cons action actions ih =>
    have hrest := ih (i.act action).2.2
    rw [List.cons_append, Interface.run, Interface.run]
    dsimp only
    rw [hrest]
    simp only [List.append_assoc]

/-- There are not more bytes than a start byte and what the ring buffer holds. -/
theorem At.length_le (h : At find i xs) : xs.length ≤ inputRingBufferSize + 1 := by
  obtain ⟨-, -, hstage⟩ := h
  cases hstage with
  | idle hcount hb => exact Nat.le_succ_of_le hb.length_le
  | started hcount hp hb => exact Nat.succ_le_succ hb.length_le
  | headed hcount hp hb => exact Nat.succ_le_succ hb.length_le

/-- Without timeouts the events are those of the scanner, from an interface that has settled all its
bytes on. -/
theorem At.run_settled (h : At find i []) (actions : List Action) (times : List (ℕ × ℕ))
    (htimes : inputRingBufferSize < times.length)
    (hno : ∀ e ∈ (i.run (actions ++ times.map fun t => .update silent t.1 t.2)).2.1,
      e.isTimeout = false) :
    (i.run (actions ++ times.map fun t => .update silent t.1 t.2)).2.1 =
      ((scanner find).scan (i.run actions).1).1 := by
  rw [run_append] at hno ⊢
  obtain ⟨ys, hys, hscan⟩ := h.scan_run actions fun e he => hno e (List.mem_append_left _ he)
  have hle := hys.length_le
  have hrest := hys.run_silent times (fun e he => hno e (List.mem_append_right _ he))
    (.inr (by omega))
  rw [List.nil_append] at hscan
  rw [hscan, hrest]

section Programs

variable (m : Memory) (packetTimeoutVal : ℕ)
  (callbacks : List (UInt8 × Option ℕ × Option CallbackFunction)) (actions : List Action)

end Programs

/-- Where all is settled and no bytes arrive, nothing is reported. -/
theorem At.run_silent_nil (times : List (ℕ × ℕ)) (h : At find i []) :
    (i.run (times.map fun t => .update silent t.1 t.2)).2.1 = [] := by
  induction times generalizing i with
  | nil => rfl
  | cons t times ih =>
    obtain ⟨now, later⟩ := t
    obtain ⟨ys, hat, hreads, -, -⟩ := h.update silent now later
    have hdone : ∀ {xs ys : List UInt8} {es : List Event}, Reads find xs es ys → xs = [] →
        es = [] ∧ ys = [] := by
      intro xs ys es hreads hnil
      cases hreads with
      | done => exact ⟨rfl, hnil⟩
      | decided hnext => rw [hnil] at hnext; cases hnext
      | headerTimeout => cases hnil
      | timeout => cases hnil
    obtain ⟨hes, rfl⟩ := hdone hreads rfl
    rw [List.map_cons, Interface.run]
    show (i.update silent now later).1 ++ _ = []
    rw [hes, List.nil_append]
    exact ih hat

/-- All is settled before a start byte if the ring buffer is empty. -/
theorem At.eq_nil (h : At find i xs) (hcount : i.byteCount = 0)
    (hempty : i.inputBuffer.currentCount = 0) : xs = [] := by
  obtain ⟨-, -, hstage⟩ := h
  cases hstage with
  | idle _ hb => exact List.eq_nil_of_length_eq_zero (by rw [← hb.currentCount, hempty])
  | started hcount' => rw [hcount] at hcount'; cases hcount'
  | headed hcount' => rw [hcount] at hcount'; cases hcount'

/-- Nothing is late behind a run that settled all its bytes. -/
theorem in_time_of_settled (m : Memory) (packetTimeoutVal : ℕ)
    (callbacks : List (UInt8 × Option ℕ × Option CallbackFunction)) (actions : List Action)
    (times : List (ℕ × ℕ))
    (hcount : (((Interface.init m packetTimeoutVal).addCallbacks callbacks).run
      actions).2.2.byteCount = 0)
    (hempty : (((Interface.init m packetTimeoutVal).addCallbacks callbacks).run
      actions).2.2.inputBuffer.currentCount = 0)
    (hno : ∀ e ∈ (((Interface.init m packetTimeoutVal).addCallbacks callbacks).run actions).2.1,
      e.isTimeout = false) :
    ∀ e ∈ (((Interface.init m packetTimeoutVal).addCallbacks callbacks).run
      (actions ++ times.map fun t => .update silent t.1 t.2)).2.1, e.isTimeout = false := by
  obtain ⟨hat, -⟩ := at_addCallbacks m packetTimeoutVal callbacks
  obtain ⟨ys, hys, -⟩ := hat.slices_run actions .whole
  obtain rfl := hys.eq_nil hcount hempty
  have hsilent := hys.run_silent_nil times
  rw [run_append, hsilent, List.append_nil]
  exact hno

/-- Times for the bytes that may be left. -/
theorem exists_times : ∃ times : List (ℕ × ℕ), inputRingBufferSize < times.length :=
  ⟨List.replicate (inputRingBufferSize + 1) (0, 0), by
    rw [List.length_replicate]
    exact Nat.lt_succ_self _⟩

/-- A stream of packets, each behind some bytes that are no start bytes. -/
def streamOf (packets : List (List UInt8 × Body)) : List UInt8 :=
  packets.flatMap fun p => p.1 ++ p.2.encode

/-- A packet that was built is taken off as a whole. -/
theorem decision_encode (b : Body) :
    decision find b.encode =
      some ([.packet .validPacket b.encode (find b.descriptorSet)], b.encode.length) := by
  have hsize := b.toNat_size
  have hrest : (b.payload ++ [(Fletcher.sums b.front).1, (Fletcher.sums b.front).2]).length =
      (UInt8.ofNat b.size).toNat + checksumSize := by
    rw [List.length_append, b.length_payload, hsize]
    rfl
  have hpacket : packetOf b.descriptorSet (UInt8.ofNat b.size)
      (b.payload ++ [(Fletcher.sums b.front).1, (Fletcher.sums b.front).2]) = b.encode := by
    rw [packetOf, ← hrest, List.take_length, Body.encode, Body.front, List.append_assoc]
  have hsealed : Fletcher.Sealed b.encode := ⟨b.front, _, _, rfl, rfl⟩
  rw [← hpacket] at hsealed
  have hdecision : decision find (syncByte1 :: syncByte2 :: b.descriptorSet ::
      UInt8.ofNat b.size :: (b.payload ++ [(Fletcher.sums b.front).1, (Fletcher.sums b.front).2])) =
      _ := decision_of_sealed (Nat.le_of_eq hrest.symm) hsealed
  rw [hpacket] at hdecision
  rw [← hdecision, Body.encode, Body.front, List.append_assoc]
  rfl

/-- The scanner reports the packets of a stream. -/
theorem scan_streamOf (packets : List (List UInt8 × Body))
    (hgaps : ∀ p ∈ packets, syncByte1 ∉ p.1) :
    (scanner find).scan (streamOf packets) =
      (packets.map fun p => .packet .validPacket p.2.encode (find p.2.descriptorSet), []) := by
  induction packets with
  | nil => rfl
  | cons p packets ih =>
    obtain ⟨hgap, hrest⟩ := List.forall_mem_cons.mp hgaps
    obtain ⟨gap, b⟩ := p
    have hreads : Reads find (gap ++ (b.encode ++ streamOf packets)) []
        (b.encode ++ streamOf packets) := reads_skip hgap _
    have hskip := hreads.scan (List.forall_mem_nil _)
    have hnext : (scanner find).next b.encode =
        some ([.packet .validPacket b.encode (find b.descriptorSet)], b.encode.length) :=
      decision_encode b
    have hone := Scanner.scan_cons_block hnext (streamOf packets)
    rw [ih hrest] at hone
    rw [streamOf, List.flatMap_cons, List.append_assoc]
    show (scanner find).scan (gap ++ (b.encode ++ streamOf packets)) = _
    rw [hskip, hone]
    rfl

/-- Packets that were built are reported as they were built, from an interface that has settled all
its bytes on. -/
theorem At.run_streamOf (h : At find i []) (packets : List (List UInt8 × Body))
    (hgaps : ∀ p ∈ packets, syncByte1 ∉ p.1) (actions : List Action) (times : List (ℕ × ℕ))
    (htimes : inputRingBufferSize < times.length) (hstream : (i.run actions).1 = streamOf packets)
    (hno : ∀ e ∈ (i.run (actions ++ times.map fun t => .update silent t.1 t.2)).2.1,
      e.isTimeout = false) :
    (i.run (actions ++ times.map fun t => .update silent t.1 t.2)).2.1 =
      packets.map fun p => .packet .validPacket p.2.encode (find p.2.descriptorSet) := by
  rw [h.run_settled actions times htimes hno, hstream, scan_streamOf packets hgaps]

end Guillemot.Mip
