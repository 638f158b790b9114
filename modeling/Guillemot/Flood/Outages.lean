import Guillemot.Flood.Main
import Guillemot.Library.Log
import Guillemot.Library.Loop
import Guillemot.Library.Outage

/-!
# Sensors that are out

The loop of `main` for any number of sensors, with a log of the readings that it handles and the
checks that it makes. `main` notes in `aLastSeen` alone when a sensor was seen and whether it has
been reported. `outages_reported_once` says that in every run each check reports exactly what the
two variables of an `Outage` would say. `iterateOf_main` says that with the number of sensors in the
source this is the loop of `Main.lean`.

The index of the readings is a `UInt8`: with 64 sensors or more there are packets whose readings are
never all handled, since the index wraps around before it comes to the end.
-/

namespace Guillemot.Flood

/-! ## The loop -/

/-- What `main` does with a sensor. -/
inductive Entry where
  /-- A reading is handled at the time `now`. -/
  | reading (sensor : ℕ) (now : UInt32) (published : FloodMsg)
  /-- The sensor is checked at the time `now`. -/
  | check (sensor : ℕ) (now : UInt32) (published : List FloodMsg)
deriving DecidableEq, Repr

/-- The time of an entry. -/
def Entry.now : Entry → UInt32
  | .reading _ now _ => now
  | .check _ now _ => now

/-- What is published with an entry. -/
def Entry.published : Entry → List FloodMsg
  | .reading _ _ published => [published]
  | .check _ _ published => published

/-- The guard of a loop over the readings of `k` bytes, with `i` and the sensors that it has been
about. -/
def readingGuard (n k : ℕ) (packetSize : UInt8) (v : UInt8 × List ℕ) : Bool :=
  decide (v.1 < packetSize ∧ v.1.toNat / k < n)

/-- A round of such a loop. -/
def readingRound (k : ℕ) (v : UInt8 × List ℕ) : Option (UInt8 × List ℕ) :=
  some (v.1 + UInt8.ofNat k, v.2 ++ [v.1.toNat / k])

/-- A loop over the readings of `k` bytes: the sensors that it is about. -/
def readingLoop (n k fuel : ℕ) (packetSize : UInt8) : Outcome (List ℕ) := do
  let v ← Loop.whileLoop (readingGuard n k packetSize) (readingRound k) fuel (0, [])
  pure v.2

/-- The `switch` of `main`. Readings of one or four bytes are printed only. -/
def State.handlePacketOf (n fuel : ℕ) (s : State) (clock : Clock) (r : Reading) :
    Outcome (State × List Entry) :=
  let packetSize := r.pBuf packetSizeOffset
  let bytesPerReading := r.pBuf packetBytesPerReadingOffset
  if bytesPerReading = 1 then do
    let _ ← readingLoop n 1 fuel packetSize
    pure (s, [])
  else if bytesPerReading = 2 then do
    let sensors ← readingLoop n 2 fuel packetSize
    pure
      ({ s with
          aLastSeen := sensors.foldl (fun seen pos => seen.set pos (clock.seen pos)) s.aLastSeen },
        sensors.map fun pos => .reading pos (clock.seen pos) (r.floodMsg pos))
  else if bytesPerReading = 4 then do
    let _ ← readingLoop n 4 fuel packetSize
    pure (s, [])
  else pure (s, [])

/-- The first part of an iteration. -/
def State.receivePartOf (n fuel : ℕ) (line : Line) (clock : Clock) (s : State) :
    Outcome (State × List Entry) :=
  if line.good s.port.calls then
    match recvPacket line s.port with
    | none => .fault
    | some (size, r) =>
      if 0 < size then State.handlePacketOf n fuel { s with port := r.port } clock r
      else pure ({ s with port := r.port }, [])
  else pure ({ s with port.calls := s.port.calls + 1 }, [])

/-- The check of the sensor `i`, with its entry. -/
def State.checkEntry (clock : Clock) (s : State) (i : ℕ) : State × Entry :=
  ((s.checkDevice clock i).1, .check i (clock.checked i) (s.checkDevice clock i).2)

/-- The second part of an iteration. -/
def State.checkDevicesOf (n : ℕ) (clock : Clock) (s : State) : State × List Entry :=
  (List.range n).foldl
    (fun a i => ((a.1.checkEntry clock i).1, a.2 ++ [(a.1.checkEntry clock i).2])) (s, [])

/-- An iteration. -/
def State.iterateOf (n fuel : ℕ) (line : Line) (clock : Clock) (s : State) :
    Outcome (State × List Entry) := do
  let r ← s.receivePartOf n fuel line clock
  pure ((r.1.checkDevicesOf n clock).1, r.2 ++ (r.1.checkDevicesOf n clock).2)

/-- Iterations one after the other, with the log of all of them. -/
def State.runOf (n fuel : ℕ) (line : Line) : List Clock → State → Outcome (State × List Entry)
  | [], s => pure (s, [])
  | clock :: clocks, s => do
    let r ← s.iterateOf n fuel line clock
    let rest ← State.runOf n fuel line clocks r.1
    pure (rest.1, r.2 ++ rest.2)

/-- The state in front of the loop, with what `getSeconds` has returned for each sensor. -/
def State.startOf (n : ℕ) (port : Port) (started : ℕ → UInt32) : State :=
  ⟨port, (List.range n).map started⟩

/-! ## What is to be reported -/

/-- The two variables of every sensor after an entry: the time of its last reading, and whether its
state 2 has been published since. -/
def nextOutages (o : ℕ → Outage) : Entry → ℕ → Outage
  | .reading sensor now _ => Function.update o sensor ⟨now.toNat, false⟩
  | .check sensor _ published =>
    if ⟨enclosure, sensor, 2⟩ ∈ published then
      Function.update o sensor { o sensor with reported := true }
    else o

/-- A reading publishes no state 2. A check publishes it, and nothing else, exactly when more than
`timeOut` seconds have passed since the last reading and it has not been published since. -/
def RightEntry (o : ℕ → Outage) : Entry → Prop
  | .reading _ _ published => published.state ≠ 2
  | .check sensor now published =>
    published = if (o sensor).Due timeOut.toNat now.toNat then [⟨enclosure, sensor, 2⟩] else []

/-- The two variables at the start. -/
def startOutages (started : ℕ → UInt32) (sensor : ℕ) : Outage := ⟨(started sensor).toNat, false⟩

/-- `aLastSeen` holds the two variables of `n` sensors. -/
def State.Tracks (n : ℕ) (s : State) (o : ℕ → Outage) : Prop :=
  s.aLastSeen.length = n ∧
    ∀ i < n, Encodes (2 ^ 32) timeOut.toNat (s.aLastSeen.getD i 0).toNat (o i)

variable {n fuel : ℕ} {line : Line} {s t : State} {o : ℕ → Outage} {clock : Clock}

/-- A time that is far enough from the end of the clock. -/
def Early (now : UInt32) : Prop := now.toNat < 2 ^ 32 - 31

instance (now : UInt32) : Decidable (Early now) := inferInstanceAs (Decidable (_ < _))

/-! ## One sensor -/

/-- An entry of `aLastSeen` is written, and with it the two variables. -/
theorem State.Tracks.set (h : s.Tracks n o) (i : ℕ) {cell : UInt32} {out : Outage}
    (hcell : Encodes (2 ^ 32) timeOut.toNat cell.toNat out) :
    State.Tracks n { s with aLastSeen := s.aLastSeen.set i cell } (Function.update o i out) := by
  obtain ⟨hlen, hall⟩ := h
  refine ⟨by rw [List.length_set, hlen], fun j hj => ?_⟩
  have hold := hall j hj
  dsimp only
  rw [List.getD_eq_getElem?_getD, List.getElem?_set]
  by_cases hij : i = j
  · rw [if_pos hij, if_pos (by omega), hij, Function.update_self]
    exact hcell
  · rw [if_neg hij, Function.update_of_ne (Ne.symm hij), ← List.getD_eq_getElem?_getD]
    exact hold

/-- The check of a sensor. -/
theorem checkEntry_right (clock : Clock) (h : s.Tracks n o) {i : ℕ} (hi : i < n) :
    RightEntry o (s.checkEntry clock i).2 ∧
      (s.checkEntry clock i).1.Tracks n (nextOutages o (s.checkEntry clock i).2) := by
  have hencodes := h.2 i hi
  have hdue : s.aLastSeen.getD i 0 + timeOut < clock.checked i ↔
      (o i).Due timeOut.toNat (clock.checked i).toNat := by
    rw [UInt32.lt_iff_toNat_lt, UInt32.toNat_add]
    exact hencodes.due_iff (UInt32.toNat_lt _)
  unfold State.checkEntry State.checkDevice
  by_cases hreport : s.aLastSeen.getD i 0 + timeOut < clock.checked i
  · rw [if_pos hreport]
    have hnext : nextOutages o (.check i (clock.checked i) [⟨enclosure, i, 2⟩]) =
        Function.update o i { o i with reported := true } :=
      if_pos (List.mem_singleton_self _)
    refine ⟨(if_pos (hdue.mp hreport)).symm, ?_⟩
    rw [hnext]
    exact h.set i hencodes.reported
  · rw [if_neg hreport]
    exact ⟨(if_neg fun hout => hreport (hdue.mpr hout)).symm, h⟩

/-! ## An iteration -/

/-- The log of a part of the loop is right, and afterwards `aLastSeen` holds the two variables that
it leads to. -/
def Sound (n : ℕ) (o : ℕ → Outage) (r : State × List Entry) : Prop :=
  Log.Accounts nextOutages RightEntry o r.2 ∧ r.1.Tracks n (r.2.foldl nextOutages o)

/-- The checks. -/
theorem checkDevicesOf_sound (h : s.Tracks n o) (clock : Clock) :
    Sound n o (s.checkDevicesOf n clock) := by
  -- The first `m` of them, for any `m`.
  suffices hfirst : ∀ m ≤ n, Sound n o ((List.range m).foldl
      (fun a i => ((a.1.checkEntry clock i).1, a.2 ++ [(a.1.checkEntry clock i).2])) (s, [])) from
    hfirst n le_rfl
  intro m hm
  induction m with
  | zero => exact ⟨trivial, h⟩
  | succ m ih =>
    obtain ⟨haccounts, htracks⟩ := ih (by omega)
    obtain ⟨hright, hnext⟩ := checkEntry_right clock htracks (Nat.lt_of_succ_le hm)
    rw [List.range_succ, List.foldl_append]
    refine ⟨Log.accounts_snoc.mpr ⟨haccounts, hright⟩, ?_⟩
    simp only [List.foldl_cons, List.foldl_nil, List.foldl_append]
    exact hnext

/-- The readings. -/
theorem readings_sound (h : s.Tracks n o) (clock : Clock) (r : Reading) (sensors : List ℕ)
    (hearly : ∀ pos ∈ sensors, Early (clock.seen pos)) :
    Sound n o
      ({ s with
          aLastSeen := sensors.foldl (fun seen pos => seen.set pos (clock.seen pos)) s.aLastSeen },
        sensors.map fun pos => .reading pos (clock.seen pos) (r.floodMsg pos)) := by
  induction sensors generalizing s o with
  | nil => exact ⟨trivial, h⟩
  | cons pos sensors ih =>
    have hstate : (r.floodMsg pos).state ≠ 2 := by
      unfold Reading.floodMsg
      dsimp only
      split_ifs <;> omega
    have hseen : Encodes (2 ^ 32) timeOut.toNat (clock.seen pos).toNat
        ⟨(clock.seen pos).toNat, false⟩ := by
      refine .arrival ?_
      have hpos := hearly pos List.mem_cons_self
      have htimeOut : timeOut.toNat = 30 := rfl
      unfold Early at hpos
      omega
    obtain ⟨haccounts, htracks⟩ :=
      ih (h.set pos hseen) fun p hp => hearly p (List.mem_cons_of_mem _ hp)
    exact ⟨⟨hstate, haccounts⟩, htracks⟩

/-- A part of the loop in which nothing happens. -/
theorem sound_nil (h : s.Tracks n o) : Sound n o (s, []) := ⟨trivial, h⟩

/-- A part of the loop, and another behind it. -/
theorem Sound.append {first second : State × List Entry} (hfirst : Sound n o first)
    (hsecond : Sound n (first.2.foldl nextOutages o) second) :
    Sound n o (second.1, first.2 ++ second.2) := by
  refine ⟨Log.accounts_append.mpr ⟨hfirst.1, hsecond.1⟩, ?_⟩
  dsimp only
  rw [List.foldl_append]
  exact hsecond.2

theorem handlePacketOf_sound (h : s.Tracks n o) {r : Reading} {res : State × List Entry}
    (hdone : s.handlePacketOf n fuel clock r = .done res) (hearly : ∀ e ∈ res.2, Early e.now) :
    Sound n o res := by
  unfold State.handlePacketOf at hdone
  dsimp only at hdone
  split_ifs at hdone
  · obtain ⟨-, -, hres⟩ := Outcome.bind_eq_done.mp hdone
    obtain rfl := Outcome.done.inj hres
    exact sound_nil h
  · -- The readings that are published.
    obtain ⟨sensors, -, hres⟩ := Outcome.bind_eq_done.mp hdone
    obtain rfl := Outcome.done.inj hres
    exact readings_sound h clock r sensors fun pos hpos =>
      hearly _ (List.mem_map_of_mem hpos)
  · obtain ⟨-, -, hres⟩ := Outcome.bind_eq_done.mp hdone
    obtain rfl := Outcome.done.inj hres
    exact sound_nil h
  · obtain rfl := Outcome.done.inj hdone
    exact sound_nil h

theorem receivePartOf_sound (h : s.Tracks n o) {res : State × List Entry}
    (hdone : s.receivePartOf n fuel line clock = .done res) (hearly : ∀ e ∈ res.2, Early e.now) :
    Sound n o res := by
  -- What happens to the port does not matter.
  have hport : ∀ port, State.Tracks n { s with port } o := fun _ => h
  unfold State.receivePartOf at hdone
  split_ifs at hdone
  · split at hdone
    · cases hdone
    · split_ifs at hdone
      · exact handlePacketOf_sound (hport _) hdone hearly
      · obtain rfl := Outcome.done.inj hdone
        exact sound_nil (hport _)
  · obtain rfl := Outcome.done.inj hdone
    exact sound_nil (hport _)

theorem iterateOf_sound (h : s.Tracks n o) {res : State × List Entry}
    (hdone : s.iterateOf n fuel line clock = .done res) (hearly : ∀ e ∈ res.2, Early e.now) :
    Sound n o res := by
  obtain ⟨r, hreceive, hres⟩ := Outcome.bind_eq_done.mp hdone
  obtain rfl := Outcome.done.inj hres
  have hsound := receivePartOf_sound h hreceive fun e he => hearly e (List.mem_append_left _ he)
  exact hsound.append (checkDevicesOf_sound hsound.2 clock)

/-! ## Runs -/

theorem runOf_sound {clocks : List Clock} (h : s.Tracks n o) {res : State × List Entry}
    (hdone : s.runOf n fuel line clocks = .done res) (hearly : ∀ e ∈ res.2, Early e.now) :
    Sound n o res := by
  induction clocks generalizing s o res with
  | nil =>
    obtain rfl := Outcome.done.inj hdone
    exact sound_nil h
  | cons clock clocks ih =>
    obtain ⟨r, hiterate, hmore⟩ := Outcome.bind_eq_done.mp hdone
    obtain ⟨rest, hrest, hres⟩ := Outcome.bind_eq_done.mp hmore
    obtain rfl := Outcome.done.inj hres
    have hsound := iterateOf_sound h hiterate fun e he => hearly e (List.mem_append_left _ he)
    exact hsound.append (ih hsound.2 hrest fun e he => hearly e (List.mem_append_right _ he))

/-- At the start every sensor counts as seen. -/
theorem startOf_tracks (n : ℕ) (port : Port) {started : ℕ → UInt32}
    (hstarted : ∀ i < n, Early (started i)) :
    (State.startOf n port started).Tracks n (startOutages started) := by
  refine ⟨by simp [State.startOf], fun i hi => ?_⟩
  have hcell : (State.startOf n port started).aLastSeen.getD i 0 = started i := by
    simp [State.startOf, hi]
  have hearly := hstarted i hi
  have htimeOut : timeOut.toNat = 30 := rfl
  unfold Early at hearly
  rw [hcell]
  exact .arrival (by omega)

/-- In every run, with any number of sensors, any line and a clock that stays away from its end,
each check of a sensor publishes state 2 exactly when more than `timeOut` seconds have passed since
its last reading or the start, and no state 2 has been published for it since then. No reading
publishes it. -/
theorem outages_reported_once (n fuel : ℕ) (line : Line) (port : Port) (started : ℕ → UInt32)
    (clocks : List Clock) (t : State) (log : List Entry)
    (hrun : (State.startOf n port started).runOf n fuel line clocks = .done (t, log))
    (hstarted : ∀ i < n, Early (started i)) (hearly : ∀ e ∈ log, Early e.now)
    (before : List Entry) (e : Entry) (after : List Entry) (hlog : log = before ++ e :: after) :
    RightEntry (before.foldl nextOutages (startOutages started)) e := by
  obtain rfl := hlog
  exact Log.ok_of_accounts (runOf_sound (startOf_tracks n port hstarted) hrun hearly).1

/-- A line on which the port is never good. -/
def neverGood : Line := ⟨fun _ => 0, fun _ => 0, fun _ => false⟩

/-- A sensor that stays out from the start at 5 is reported at 40, and not again at 71. -/
theorem reported_at_40_only :
    let reported : Entry := .check 0 40 [⟨enclosure, 0, 2⟩]
    RightEntry ([reported].foldl nextOutages (startOutages fun _ => 5)) (.check 0 71 []) :=
  outages_reported_once 1 0 neverGood ⟨0, 0⟩ (fun _ => 5)
    [⟨fun _ => 0, fun _ => 40⟩, ⟨fun _ => 0, fun _ => 71⟩] _
    [.check 0 40 [⟨enclosure, 0, 2⟩], .check 0 71 []] rfl
    (fun _ _ => by decide) (by decide) [.check 0 40 [⟨enclosure, 0, 2⟩]] _ [] rfl

/-! ## The number of sensors in the source -/

/-- The sensors that two-byte readings are about, for each number of readings. -/
theorem sensorsRead_cases (packetSize : ℕ) :
    sensorsRead packetSize =
      if 0 < packetSize then if 2 < packetSize then [0, 1] else [0] else [] := by
  unfold sensorsRead numberOfSensors
  rw [show List.range 2 = [0, 1] from rfl]
  split_ifs with hzero htwo
  · simp [List.takeWhile, hzero, htwo]
  · simp [List.takeWhile, hzero, htwo]
  · simp [List.takeWhile, hzero]

/-- The loop over them is about these sensors. -/
theorem readingLoop_main {packetSize : UInt8} {sensors : List ℕ}
    (h : readingLoop numberOfSensors 2 fuel packetSize = .done sensors) :
    sensors = sensorsRead packetSize.toNat := by
  obtain ⟨v, hloop, hv⟩ := Outcome.bind_eq_done.mp h
  obtain rfl := Outcome.done.inj hv
  have hthree : ∃ i, Loop.whileLoop (readingGuard numberOfSensors 2 packetSize) (readingRound 2) 3
      (0, []) = .done (i, sensorsRead packetSize.toNat) := by
    have hzero : (0 : UInt8) < packetSize ↔ 0 < packetSize.toNat := UInt8.lt_iff_toNat_lt
    have htwo : (2 : UInt8) < packetSize ↔ 2 < packetSize.toNat := UInt8.lt_iff_toNat_lt
    rw [sensorsRead_cases]
    split_ifs with h0 h2
    · exact ⟨4, by simp [Loop.whileLoop, readingGuard, readingRound, numberOfSensors, hzero.mpr h0,
        htwo.mpr h2]⟩
    · exact ⟨2, by simp [Loop.whileLoop, readingGuard, readingRound, numberOfSensors, hzero.mpr h0,
        htwo.not.mpr h2]⟩
    · exact ⟨0, by simp [Loop.whileLoop, readingGuard, hzero.not.mpr h0]⟩
  obtain ⟨i, hthree⟩ := hthree
  have hmore := Loop.whileLoop_mono (Nat.le_add_right fuel 3) (by rw [hloop]; simp)
  have hmore' := Loop.whileLoop_mono (Nat.le_add_left 3 fuel) (by rw [hthree]; simp)
  rw [hmore', hthree, hloop] at hmore
  rw [← Outcome.done.inj hmore]

/-- What is received is handled alike. -/
theorem handlePacketOf_main {r : Reading} {res : State × List Entry}
    (h : s.handlePacketOf numberOfSensors fuel clock r = .done res) :
    s.handlePacket clock r = (res.1, res.2.flatMap Entry.published) := by
  unfold State.handlePacketOf at h
  unfold State.handlePacket
  dsimp only at h ⊢
  split_ifs at h with hone htwo hfour
  · obtain ⟨-, -, hres⟩ := Outcome.bind_eq_done.mp h
    obtain rfl := Outcome.done.inj hres
    rw [if_neg (by rw [hone]; decide)]
    rfl
  · obtain ⟨sensors, hsensors, hres⟩ := Outcome.bind_eq_done.mp h
    obtain rfl := Outcome.done.inj hres
    obtain rfl := readingLoop_main hsensors
    rw [if_pos htwo]
    dsimp only
    rw [List.flatMap_map]
    exact congrArg _ List.map_eq_flatMap
  · obtain ⟨-, -, hres⟩ := Outcome.bind_eq_done.mp h
    obtain rfl := Outcome.done.inj hres
    rw [if_neg htwo]
    rfl
  · obtain rfl := Outcome.done.inj h
    rw [if_neg htwo]
    rfl

theorem receivePartOf_main {res : State × List Entry}
    (h : s.receivePartOf numberOfSensors fuel line clock = .done res) :
    s.receivePart line clock = some (res.1, res.2.flatMap Entry.published) := by
  unfold State.receivePartOf at h
  unfold State.receivePart
  split_ifs at h ⊢ with hgood
  · obtain hpacket | ⟨⟨size, r⟩, hpacket⟩ := (recvPacket line s.port).eq_none_or_eq_some
    · rw [hpacket] at h
      cases h
    · rw [hpacket] at h ⊢
      dsimp only at h ⊢
      split_ifs at h ⊢ with hsize
      · exact congrArg some (handlePacketOf_main h)
      · obtain rfl := Outcome.done.inj h
        rfl
  · obtain rfl := Outcome.done.inj h
    rfl

theorem checkDevicesOf_main (s : State) (clock : Clock) :
    s.checkDevices clock =
      ((s.checkDevicesOf numberOfSensors clock).1,
        (s.checkDevicesOf numberOfSensors clock).2.flatMap Entry.published) := by
  unfold State.checkDevices State.checkDevicesOf
  generalize List.range numberOfSensors = sensors
  induction sensors using List.reverseRecOn with
  | nil => rfl
  | append_singleton sensors i ih =>
    simp only [List.foldl_append, List.foldl_cons, List.foldl_nil, ih, List.flatMap_append]
    simp [State.checkEntry, Entry.published]

/-- With the number of sensors in the source, an iteration that ends is one of `Main.lean`, with the
same messages. -/
theorem iterateOf_main {res : State × List Entry}
    (h : s.iterateOf numberOfSensors fuel line clock = .done res) :
    s.iterate line clock = some (res.1, res.2.flatMap Entry.published) := by
  obtain ⟨r, hreceive, hres⟩ := Outcome.bind_eq_done.mp h
  obtain rfl := Outcome.done.inj hres
  unfold State.iterate
  rw [receivePartOf_main hreceive]
  dsimp only [Option.map]
  rw [checkDevicesOf_main, List.flatMap_append]

end Guillemot.Flood
