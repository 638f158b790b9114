import Guillemot.Mip.Delivery

/-!
# The program that shows the sensor's values

`ImuWithLib.cpp` on top of the packet library: it adds one callback, for the packets with data of
the sensor, and calls `mip_interface_update` over and over. The callback counts the packets, and
copies the fields that it knows to three variables, whose numbers it turns around in memory.

A number is the four bytes of a `float`, of which the lowest comes first. `*= 180.0/M_PI` takes the
product as a `double`, and rounds it to a `float` (`toDegrees`).

Packets that were built arrive in the variables: each of them holds the data of the last field of
its kind, and the counter of valid packets counts them (`run_values`).
-/

namespace Guillemot.Mip

/-! ## Bytes in the other order -/

/-- The loop of `byteswap_inplace`, for at most so many rounds. -/
def swapLoop : ℕ → ℕ → ℕ → Memory → Memory
  | 0, _, _, m => m
  | fuel + 1, first, last, m =>
    if first < last then
      swapLoop fuel (first + 1) (last - 1) ((m.copy first [m last]).copy last [m first])
    else m

/-- `byteswap_inplace`. -/
def byteswapInplace (m : Memory) (data size : ℕ) : Memory := swapLoop size data (data + size - 1) m

/-- `mip_ahrs_scaled_gyro_byteswap`, and those of the other variables, which have three numbers,
too. -/
def byteswapThree (m : Memory) : Memory :=
  (List.range 3).foldl (fun m i => byteswapInplace m (4 * i) 4) m

/-! ## The program -/

namespace ImuWithLib

/-- `MIP_AHRS_DATA_SET`. -/
def ahrsDataSet : UInt8 := 0x80

/-- `MIP_AHRS_DATA_ACCEL_SCALED`. -/
def accelScaled : UInt8 := 0x04

/-- `MIP_AHRS_DATA_GYRO_SCALED`. -/
def gyroScaled : UInt8 := 0x05

/-- `MIP_AHRS_DATA_EULER_ANGLES`. -/
def eulerAngles : UInt8 := 0x0C

/-- The variables of the program. -/
structure Variables where
  validPacketCount : ℕ
  timeoutPacketCount : ℕ
  checksumErrorPacketCount : ℕ
  currGyro : Memory
  currAccel : Memory
  currEuler : Memory

/-- The variables at the start. -/
def Variables.init : Variables := ⟨0, 0, 0, fun _ => 0, fun _ => 0, fun _ => 0⟩

/-! ### Degrees -/

open Float.Model (Format UnpackedFloat)

/-- A number in another format, rounded to the nearest number in it. -/
def convert (format : Format) : UnpackedFloat → UnpackedFloat
  | .finite sign mantissa exponent _ => .round format sign mantissa exponent
  | x => x

/-- A `float` as a `double`. -/
def widen (x : Float32) : Float := .ofModel (.pack (convert .binary64 x.toModel.unpack))

/-- A `double` as a `float`. -/
def narrow (x : Float) : Float32 := .ofModel (.pack (convert .binary32 x.toModel.unpack))

/-- `180.0/M_PI`. -/
def degreesPerRadian : Float := 180.0 / 3.14159265358979323846

/-- `*= 180.0/M_PI` on the bits of a `float`. What is not a number stays, and becomes quiet. -/
def timesDegrees (bits : UInt32) : UInt32 :=
  let x := Float32.ofBits bits
  if x.isNaN then bits ||| 0x400000 else (narrow (widen x * degreesPerRadian)).toBits

/-- `*= 180.0/M_PI` on the bytes of a `float`. -/
def toDegrees (number : List UInt8) : List UInt8 :=
  let bits := timesDegrees (.ofNat (number.foldr (fun x n => x.toNat + 2 ^ 8 * n) 0))
  (List.range 4).map fun k => .ofNat (bits.toNat / 2 ^ (8 * k))

theorem length_toDegrees (number : List UInt8) : (toDegrees number).length = 4 := by
  rw [toDegrees, List.length_map, List.length_range]

/-- One radian. -/
example : toDegrees [0x00, 0x00, 0x80, 0x3F] = [0xE1, 0x2E, 0x65, 0x42] := by decide +kernel

/-! ### The callback and the main loop -/

/-- `convertRadiansToDegrees`: pitch, yaw and roll. -/
def convertRadiansToDegrees (m : Memory) : Memory :=
  let m := m.copy 4 (toDegrees (m.bytes 4 4))
  let m := m.copy 8 (toDegrees (m.bytes 8 4))
  m.copy 0 (toDegrees (m.bytes 0 4))

/-- What the loop of `ahrs_packet_callback` does with a field of a packet. -/
def onField (packet : Memory) (field : ℕ) (v : Variables) : Variables :=
  let fieldData := packet.bytes (field + fieldHeaderSize) 12
  if packet (field + 1) = eulerAngles then
    let m := byteswapThree (v.currEuler.copy 0 fieldData)
    { v with currEuler := convertRadiansToDegrees m }
  else if packet (field + 1) = accelScaled then
    { v with currAccel := byteswapThree (v.currAccel.copy 0 fieldData) }
  else if packet (field + 1) = gyroScaled then
    { v with currGyro := byteswapThree (v.currGyro.copy 0 fieldData) }
  else v

/-- The loop of `ahrs_packet_callback` over the fields from an offset on, for at most so many
rounds. -/
def fieldsLoop (packet : Memory) : ℕ → ℕ → Variables → Variables
  | 0, _, v => v
  | fuel + 1, fieldOffset, v =>
    match packet.getNextField fieldOffset with
    | (.ok, field, fieldOffset) =>
      fieldsLoop packet fuel fieldOffset (onField packet field v)
    | _ => v

/-- `ahrs_packet_callback`. A payload has fewer than 256 fields. -/
def ahrsPacketCallback (packet : Memory) (callbackType : CallbackType) (v : Variables) :
    Variables :=
  match callbackType with
  | .validPacket =>
    fieldsLoop packet 256 0 { v with validPacketCount := u32 (v.validPacketCount + 1) }
  | .checksumError =>
    { v with checksumErrorPacketCount := u32 (v.checksumErrorPacketCount + 1) }
  | .timeout => { v with timeoutPacketCount := u32 (v.timeoutPacketCount + 1) }

/-- The callbacks of the program. -/
def callbacks : List (UInt8 × Option ℕ × Option CallbackFunction) :=
  [(ahrsDataSet, none, some (.packetCallback 0))]

/-- What the program does when something is reported, with the packet of the interface. Its callback
is in the first slot behind that of the handler. -/
def onEvent (packet : Memory) (v : Variables) : Event → Variables
  | .packet callbackType _ (some 1) => ahrsPacketCallback packet callbackType v
  | _ => v

/-- A call of `mip_interface_update`: the port, and the times that the parser reads. -/
structure Update where
  port : Interface.Port
  now : ℕ
  later : ℕ

/-- The call as an action. -/
def Update.action (u : Update) : Action := .update u.port u.now u.later

/-- A round of the loop in `main`. The packet that was reported is still in the interface. -/
def round (i : Interface) (v : Variables) (u : Update) : Interface × Variables :=
  let (es, i) := i.update u.port u.now u.later
  (i, es.foldl (onEvent i.mipPacket) v)

/-- Some rounds, one after the other. -/
def main (i : Interface) (v : Variables) (updates : List Update) : Interface × Variables :=
  updates.foldl (fun s u => round s.1 s.2 u) (i, v)

end ImuWithLib

variable {m : Memory} {i a n : ℕ}

/-! ## What is turned around -/

/-- One byte is written. -/
theorem copy_singleton (m : Memory) (a : ℕ) (x : UInt8) (i : ℕ) :
    m.copy a [x] i = if i = a then x else m i := by
  unfold Memory.copy
  rw [List.length_singleton]
  by_cases hi : i = a
  · subst hi
    rw [if_pos ⟨Nat.le_refl i, Nat.lt_succ_self i⟩, if_pos rfl, Nat.sub_self]
    rfl
  · rw [if_neg hi, if_neg (by omega)]

/-- The bytes between two addresses, these included, are exchanged. -/
theorem swapLoop_apply (fuel first last : ℕ) (m : Memory) (h : last ≤ first + 2 * fuel) (i : ℕ) :
    swapLoop fuel first last m i =
      if first ≤ i ∧ i ≤ last then m (first + last - i) else m i := by
  induction fuel generalizing first last m with
  | zero =>
    rw [swapLoop]
    split_ifs with hi
    · have hone : first + last - i = i := by omega
      rw [hone]
    · rfl
  | succ fuel ih =>
    rw [swapLoop]
    by_cases hlt : first < last
    · rw [if_pos hlt, ih _ _ _ (by omega)]
      simp only [copy_singleton]
      rcases Nat.lt_or_ge i first with hbelow | hfirst
      · rw [if_neg (by omega), if_neg (by omega), if_neg (by omega), if_neg (by omega)]
      · rcases Nat.lt_or_ge last i with habove | hlast
        · rw [if_neg (by omega), if_neg (by omega), if_neg (by omega), if_neg (by omega)]
        · rw [if_pos (show first ≤ i ∧ i ≤ last from ⟨hfirst, hlast⟩)]
          -- The ends are exchanged in this round, and what is between them in the others.
          by_cases hends : first + 1 ≤ i ∧ i ≤ last - 1
          · have hsum : first + 1 + (last - 1) - i = first + last - i := by omega
            rw [if_pos hends, hsum, if_neg (by omega), if_neg (by omega)]
          · rw [if_neg hends]
            by_cases hi : i = last
            · have hsum : first + last - i = first := by omega
              rw [if_pos hi, hsum]
            · have hi' : i = first := by omega
              have hsum : first + last - i = last := by omega
              rw [if_neg hi, if_pos hi', hsum]
    · rw [if_neg hlt]
      split_ifs with hi
      · have hone : first + last - i = i := by omega
        rw [hone]
      · rfl

/-- `byteswap_inplace` turns its bytes around. -/
theorem bytes_byteswapInplace (m : Memory) (a n : ℕ) :
    (byteswapInplace m a n).bytes a n = (m.bytes a n).reverse := by
  apply List.ext_getElem
  · rw [List.length_reverse, Memory.length_bytes, Memory.length_bytes]
  · intro k hk hk'
    rw [Memory.length_bytes] at hk
    have hplace : a + (a + n - 1) - (a + k) = a + (n - 1 - k) := by omega
    rw [Memory.getElem_bytes, List.getElem_reverse, Memory.getElem_bytes, Memory.length_bytes,
      byteswapInplace, swapLoop_apply _ _ _ _ (by omega), if_pos (by omega), hplace]

/-- `byteswap_inplace` leaves the other bytes. -/
theorem bytes_byteswapInplace_of_disjoint {m : Memory} {a n j k : ℕ}
    (h : j + k ≤ a ∨ a + n ≤ j) (hn : 0 < n) :
    (byteswapInplace m a n).bytes j k = m.bytes j k := by
  refine List.map_congr_left fun i hi => ?_
  replace hi : i < k := List.mem_range.mp hi
  rw [byteswapInplace, swapLoop_apply _ _ _ _ (by omega), if_neg (by omega)]

/-- A part of some bytes. -/
theorem take_drop_bytes {j k : ℕ} (m : Memory) (a : ℕ) (h : j + k ≤ n) :
    ((m.bytes a n).drop j).take k = m.bytes (a + j) k := by
  obtain ⟨r, rfl⟩ := Nat.exists_eq_add_of_le h
  rw [Nat.add_assoc, Memory.bytes_add, Memory.bytes_add]
  have hfirst : (m.bytes a j).length = j := Memory.length_bytes m a j
  have hsecond : (m.bytes (a + j) k).length = k := Memory.length_bytes m (a + j) k
  rw [List.drop_left' hfirst, List.take_left' hsecond]

/-- Three numbers, each with its bytes in the other order. -/
def turned (data : List UInt8) : List UInt8 :=
  (data.take 4).reverse ++ ((data.drop 4).take 4).reverse ++ ((data.drop 8).take 4).reverse

/-- What a variable holds when twelve bytes were copied to it and turned around. -/
theorem bytes_byteswapThree {data : List UInt8} (hlen : data.length = 12) (m : Memory) :
    (byteswapThree (m.copy 0 data)).bytes 0 12 = turned data := by
  have hcopy := m.bytes_copy_self 0 data
  rw [hlen] at hcopy
  generalize m.copy 0 data = m at hcopy
  have hpart {j : ℕ} (hj : j + 4 ≤ 12) : m.bytes j 4 = (data.drop j).take 4 := by
    rw [← hcopy, take_drop_bytes m 0 hj, Nat.zero_add]
  have hsteps : byteswapThree m =
      byteswapInplace (byteswapInplace (byteswapInplace m 0 4) 4 4) 8 4 := rfl
  have hfour : 0 < 4 := Nat.succ_pos 3
  rw [hsteps, show 12 = 4 + 4 + 4 from rfl, Memory.bytes_add, Memory.bytes_add,
    bytes_byteswapInplace, bytes_byteswapInplace_of_disjoint (.inl (by decide)) hfour,
    bytes_byteswapInplace_of_disjoint (.inl (by decide)) hfour, bytes_byteswapInplace,
    bytes_byteswapInplace_of_disjoint (.inl (by decide)) hfour, bytes_byteswapInplace,
    bytes_byteswapInplace_of_disjoint (.inr (by decide)) hfour,
    bytes_byteswapInplace_of_disjoint (.inr (by decide)) hfour,
    bytes_byteswapInplace_of_disjoint (.inr (by decide)) hfour,
    hpart (by decide), hpart (by decide), hpart (by decide)]
  rfl

/-! ## What is told of a packet -/

/-- What is reported of a packet is in the packet of the interface. -/
def Told (packet : Memory) : Event → Prop
  | .packet _ bytes _ => packet.bytes 0 bytes.length = bytes
  | _ => True

theorem told_event (i : Interface) (callbackType : CallbackType) (n : ℕ) :
    Told i.mipPacket (i.event callbackType n) := by
  show i.mipPacket.bytes 0 (i.mipPacket.bytes 0 n).length = i.mipPacket.bytes 0 n
  rw [Memory.length_bytes]

/-- A callback leaves the packet. -/
theorem mipPacket_trigger (i : Interface) (callbackType : CallbackType) :
    (i.trigger callbackType).mipPacket = i.mipPacket := by
  obtain ⟨_, _, _, _, _, heq⟩ := trigger_eq i callbackType
  rw [heq]

theorem told_findStart (packet : Memory) (i : Interface) (now later : ℕ) :
    ∀ e ∈ (i.findStart now later).1, Told packet e := by
  unfold Interface.findStart Interface.getHeader
  dsimp only
  split_ifs <;> simp [Told]

theorem told_getPacket (i : Interface) (later : ℕ) :
    ∀ e ∈ (i.getPacket later).1, Told (i.getPacket later).2.mipPacket e := by
  have hone (j : Interface) (callbackType : CallbackType) (n : ℕ) :
      ∀ e ∈ [j.event callbackType n], Told (j.trigger callbackType).mipPacket e := by
    intro e he
    rw [List.mem_singleton.mp he, mipPacket_trigger]
    exact told_event j callbackType n
  unfold Interface.getPacket
  dsimp only
  rcases em (headerSize - 1 + i.mipPacket.payload + checksumSize ≤ i.inputBuffer.count) with
    hall | hwait
  · rw [if_pos hall]
    split_ifs <;> exact hone _ _ _
  · rw [if_neg hwait]
    split_ifs
    · exact hone _ _ _
    · exact List.forall_mem_nil _

/-- The packet of which `mip_interface_update` reports is still there behind the call. -/
theorem told_update (i : Interface) (port : Interface.Port) (now later : ℕ) :
    ∀ e ∈ (i.update port now later).1, Told (i.update port now later).2.mipPacket e := by
  have hparse (i : Interface) : ∀ e ∈ (i.parseInputBuffer now later).1,
      Told (i.parseInputBuffer now later).2.mipPacket e := by
    unfold Interface.parseInputBuffer
    dsimp only
    split_ifs with _ hheader
    · intro e he
      rcases List.mem_append.mp he with hfirst | hsecond
      · exact told_findStart _ i now later e hfirst
      · exact told_getPacket _ later e hsecond
    · intro e he
      rw [List.append_nil] at he
      exact told_findStart _ i now later e he
    · exact List.forall_mem_nil _
  unfold Interface.update
  split_ifs
  · exact hparse _
  · exact List.forall_mem_nil _

/-! ## What the variables show -/

namespace ImuWithLib

/-- Three numbers in degrees. -/
def inDegrees (data : List UInt8) : List UInt8 :=
  toDegrees (data.take 4) ++ toDegrees ((data.drop 4).take 4) ++ toDegrees ((data.drop 8).take 4)

/-- What a variable should show: the data of the last field of its kind, or zeros. -/
def shown (g : List UInt8 → List UInt8) (descriptor : UInt8) (fields : List Field) : List UInt8 :=
  ((fields.filter fun f => f.descriptor = descriptor).getLast?.map fun f => g f.data).getD
    (List.replicate 12 0)

/-- A field whose data the program copies to a variable has as many bytes as the variable. -/
def Measured (f : Field) : Prop :=
  f.descriptor ∈ [eulerAngles, accelScaled, gyroScaled] → f.data.length = 12

/-- The variables show the last of the fields that came. -/
structure Shows (fields : List Field) (v : Variables) : Prop where
  gyro : v.currGyro.bytes 0 12 = shown turned gyroScaled fields
  accel : v.currAccel.bytes 0 12 = shown turned accelScaled fields
  euler : v.currEuler.bytes 0 12 =
    shown (fun data => inDegrees (turned data)) eulerAngles fields

variable {fields : List Field} {f : Field} {v : Variables}
  {packet : Memory} {field : ℕ} {b : Body}

theorem shows_init : Shows [] .init := ⟨rfl, rfl, rfl⟩

theorem shown_append_of_eq (g : List UInt8 → List UInt8) (fields : List Field) {d : UInt8}
    (h : f.descriptor = d) : shown g d (fields ++ [f]) = g f.data := by
  have hlast : [f].filter (fun f => decide (f.descriptor = d)) = [f] := by simp [h]
  rw [shown, List.filter_append, hlast, List.getLast?_concat]
  rfl

theorem shown_append_of_ne (g : List UInt8 → List UInt8) (fields : List Field) {d : UInt8}
    (h : f.descriptor ≠ d) : shown g d (fields ++ [f]) = shown g d fields := by
  have hlast : [f].filter (fun f => decide (f.descriptor = d)) = [] := by simp [h]
  rw [shown, List.filter_append, hlast, List.append_nil]
  rfl

/-- What `convertRadiansToDegrees` makes of its numbers. -/
theorem bytes_convertRadiansToDegrees (m : Memory) :
    (convertRadiansToDegrees m).bytes 0 12 = inDegrees (m.bytes 0 12) := by
  have hself (m : Memory) (a : ℕ) {number : List UInt8} :
      (m.copy a (toDegrees number)).bytes a 4 = toDegrees number := by
    have hcopy := m.bytes_copy_self a (toDegrees number)
    rwa [length_toDegrees] at hcopy
  have hother (m : Memory) (a j : ℕ) {number : List UInt8} (hapart : j + 4 ≤ a ∨ a + 4 ≤ j) :
      (m.copy a (toDegrees number)).bytes j 4 = m.bytes j 4 := by
    apply Memory.bytes_copy_of_disjoint
    rwa [length_toDegrees]
  have hgroup {j : ℕ} (hj : j + 4 ≤ 12) : ((m.bytes 0 12).drop j).take 4 = m.bytes j 4 := by
    rw [take_drop_bytes m 0 hj, Nat.zero_add]
  have hfirst : (m.bytes 0 12).take 4 = m.bytes 0 4 := hgroup (j := 0) (by decide)
  -- Pitch, then yaw, then roll.
  let m1 := m.copy 4 (toDegrees (m.bytes 4 4))
  let m2 := m1.copy 8 (toDegrees (m1.bytes 8 4))
  let m3 := m2.copy 0 (toDegrees (m2.bytes 0 4))
  have hpitch : m3.bytes 4 4 = toDegrees (m.bytes 4 4) := by
    rw [hother m2 0 4 (.inr (by decide)), hother m1 8 4 (.inl (by decide)), hself m 4]
  have hyaw : m3.bytes 8 4 = toDegrees (m.bytes 8 4) := by
    rw [hother m2 0 8 (.inr (by decide)), hself m1 8, hother m 4 8 (.inr (by decide))]
  have hroll : m3.bytes 0 4 = toDegrees (m.bytes 0 4) := by
    rw [hself m2 0, hother m1 8 0 (.inl (by decide)), hother m 4 0 (.inl (by decide))]
  calc m3.bytes 0 12 = m3.bytes 0 4 ++ m3.bytes 4 4 ++ m3.bytes 8 4 := by
        rw [show 12 = 4 + 4 + 4 from rfl, Memory.bytes_add, Memory.bytes_add]
    _ = inDegrees (m.bytes 0 12) := by
        rw [hroll, hpitch, hyaw, inDegrees, hfirst, hgroup (by decide), hgroup (by decide)]

/-- A field of a packet is shown. -/
theorem Shows.onField (h : Shows fields v) (hf : Measured f)
    (hd : packet (field + 1) = f.descriptor)
    (hdata : packet.bytes (field + fieldHeaderSize) f.data.length = f.data) :
    Shows (fields ++ [f]) (onField packet field v) := by
  -- What holds the data of another kind of field is left as it is.
  have hkeep {transform : List UInt8 → List UInt8} {d : UInt8} {bytes : List UInt8}
      (hne : f.descriptor ≠ d) (hbytes : bytes = shown transform d fields) :
      bytes = shown transform d (fields ++ [f]) :=
    hbytes.trans (shown_append_of_ne _ _ hne).symm
  unfold ImuWithLib.onField
  dsimp only
  rw [hd]
  by_cases heuler : f.descriptor = eulerAngles
  · have hlen : f.data.length = 12 := hf (by simp [heuler])
    rw [hlen] at hdata
    have hgyro : f.descriptor ≠ gyroScaled := by rw [heuler]; decide
    have haccel : f.descriptor ≠ accelScaled := by rw [heuler]; decide
    rw [if_pos heuler, hdata]
    refine ⟨hkeep hgyro h.gyro, hkeep haccel h.accel, ?_⟩
    rw [shown_append_of_eq _ _ heuler, bytes_convertRadiansToDegrees, bytes_byteswapThree hlen]
  · rw [if_neg heuler]
    by_cases haccel : f.descriptor = accelScaled
    · have hlen : f.data.length = 12 := hf (by simp [haccel])
      rw [hlen] at hdata
      have hgyro : f.descriptor ≠ gyroScaled := by rw [haccel]; decide
      rw [if_pos haccel, hdata]
      refine ⟨hkeep hgyro h.gyro, ?_, hkeep heuler h.euler⟩
      rw [shown_append_of_eq _ _ haccel, bytes_byteswapThree hlen]
    · rw [if_neg haccel]
      by_cases hgyro : f.descriptor = gyroScaled
      · have hlen : f.data.length = 12 := hf (by simp [hgyro])
        rw [hlen] at hdata
        rw [if_pos hgyro, hdata]
        refine ⟨?_, hkeep haccel h.accel, hkeep heuler h.euler⟩
        rw [shown_append_of_eq _ _ hgyro, bytes_byteswapThree hlen]
      · rw [if_neg hgyro]
        exact ⟨hkeep hgyro h.gyro, hkeep haccel h.accel, hkeep heuler h.euler⟩

/-- What the program has counted. -/
def Variables.counts (v : Variables) : ℕ × ℕ × ℕ :=
  (v.validPacketCount, v.timeoutPacketCount, v.checksumErrorPacketCount)

theorem counts_onField (packet : Memory) (field : ℕ) (v : Variables) :
    (onField packet field v).counts = v.counts := by
  unfold onField
  dsimp only
  split_ifs <;> rfl

/-- The fields of a packet, from an offset on, are shown. -/
theorem Shows.fieldsLoop (hpacket : packet.isMipPacket = .ok) (rest : List Field)
    (fuel offset : ℕ)
    (hend : offset + sizeOfFields rest = packet.payload) (hfuel : rest.length < fuel)
    (hbytes : packet.bytes (headerSize + offset) (sizeOfFields rest) = rest.flatMap Field.bytes)
    (hmeasured : ∀ f ∈ rest, Measured f) (h : Shows fields v) :
    Shows (fields ++ rest) (fieldsLoop packet fuel offset v) ∧
      (ImuWithLib.fieldsLoop packet fuel offset v).counts = v.counts := by
  induction rest generalizing fuel offset fields v with
  | nil =>
    obtain ⟨fuel, rfl⟩ := Nat.exists_eq_succ_of_ne_zero (Nat.ne_of_gt hfuel)
    have hlast : packet.getNextField offset = (.fieldNotAvailable, 0, offset) :=
      getNextField_of_le hpacket (Nat.le_of_eq hend.symm)
    rw [ImuWithLib.fieldsLoop, hlast, List.append_nil]
    exact ⟨h, rfl⟩
  | cons f rest ih =>
    obtain ⟨fuel, rfl⟩ :=
      Nat.exists_eq_succ_of_ne_zero (Nat.ne_of_gt (Nat.lt_of_le_of_lt (Nat.zero_le _) hfuel))
    obtain ⟨hf, hmeasured⟩ := List.forall_mem_cons.mp hmeasured
    obtain ⟨hfield, hrest⟩ := bytes_fields hbytes
    rw [sizeOfFields_cons] at hend
    rw [List.length_cons] at hfuel
    obtain ⟨hone, hat⟩ := getNextField_eq hpacket (by omega) hfield
    obtain ⟨hd, hdata⟩ := Prod.mk.inj hat
    have hlen := congrArg List.length hdata
    rw [Memory.length_bytes] at hlen
    rw [hlen] at hdata
    have hshown := h.onField hf hd hdata
    obtain ⟨hall, hcounts⟩ := ih fuel (offset + f.size) (by omega) (by omega)
      (by rw [← Nat.add_assoc]; exact hrest) hmeasured hshown
    rw [ImuWithLib.fieldsLoop, hone, List.append_cons]
    exact ⟨hall, hcounts.trans (counts_onField packet _ v)⟩

/-! ## Packets that arrive -/

/-- The packets that the callback of the program gets. -/
def sensorPackets (packets : List Body) : List Body :=
  packets.filter fun b => b.descriptorSet = ahrsDataSet

/-- What the program knows of the packets that came. -/
structure Knows (packets : List Body) (v : Variables) : Prop where
  shows : Shows ((sensorPackets packets).flatMap Body.fields) v
  counts : v.counts = (u32 (sensorPackets packets).length, 0, 0)

theorem knows_init : Knows [] .init := ⟨shows_init, rfl⟩

/-- A packet that was built is reported. -/
theorem Knows.onEvent {packets : List Body}
    (hmeasured : b.descriptorSet = ahrsDataSet → ∀ f ∈ b.fields, Measured f)
    (hbytes : packet.bytes 0 b.encode.length = b.encode) (h : Knows packets v) :
    Knows (packets ++ [b]) (onEvent packet v (.packet .validPacket b.encode
      (if b.descriptorSet = ahrsDataSet then some 1 else none))) := by
  by_cases hset : b.descriptorSet = ahrsDataSet
  · have hone : sensorPackets (packets ++ [b]) = sensorPackets packets ++ [b] := by
      simp [sensorPackets, hset]
    obtain ⟨hcarries, hpacket, -⟩ := carries_of_encode hbytes
    obtain ⟨-, -, -, hsize⟩ := hcarries.header
    have hfits : b.size ≤ 255 := b.fits
    have hlen := b.length_fields
    have hend : 0 + sizeOfFields b.fields = packet.payload := by
      rw [Nat.zero_add, hsize]
      rfl
    have hcounted : Shows ((sensorPackets packets).flatMap Body.fields)
        { v with validPacketCount := u32 (v.validPacketCount + 1) } :=
      ⟨h.shows.gyro, h.shows.accel, h.shows.euler⟩
    obtain ⟨hshows, hcounts⟩ := hcounted.fieldsLoop hpacket b.fields 256 0 hend (by omega)
      hcarries.payload (hmeasured hset)
    obtain ⟨hvalid, hothers⟩ := Prod.mk.inj h.counts
    rw [if_pos hset]
    refine ⟨?_, ?_⟩
    · rw [hone, List.flatMap_append, List.flatMap_singleton]
      exact hshows
    · refine hcounts.trans (Prod.ext ?_ hothers)
      show u32 (v.validPacketCount + 1) = u32 (sensorPackets (packets ++ [b])).length
      rw [hvalid, u32_add, hone, List.length_append, List.length_singleton]
  · have hone : sensorPackets (packets ++ [b]) = sensorPackets packets := by
      simp [sensorPackets, hset]
    rw [if_neg hset]
    refine ⟨?_, ?_⟩
    · rw [hone]
      exact h.shows
    · rw [hone]
      exact h.counts

/-- What is reported of a packet that was built. -/
def reportOf (b : Body) : Event :=
  .packet .validPacket b.encode (if b.descriptorSet = ahrsDataSet then some 1 else none)

/-- The packets of one call are reported. -/
theorem Knows.foldl {past : List Body} (packets : List Body)
    (hmeasured : ∀ b ∈ packets, b.descriptorSet = ahrsDataSet → ∀ f ∈ b.fields, Measured f)
    (htold : ∀ e ∈ packets.map reportOf, Told packet e) (h : Knows past v) :
    Knows (past ++ packets)
      ((packets.map reportOf).foldl (ImuWithLib.onEvent packet) v) := by
  induction packets generalizing past v with
  | nil =>
    rw [List.append_nil]
    exact h
  | cons b packets ih =>
    obtain ⟨hb, hmeasured⟩ := List.forall_mem_cons.mp hmeasured
    rw [List.map_cons] at htold ⊢
    obtain ⟨hfirst, htold⟩ := List.forall_mem_cons.mp htold
    rw [List.append_cons, List.foldl_cons]
    exact ih hmeasured htold (h.onEvent hb hfirst)

/-- The packets of all calls are reported. -/
theorem Knows.main {past : List Body} {i : Interface} (updates : List Update)
    (packets : List Body)
    (hmeasured : ∀ b ∈ packets, b.descriptorSet = ahrsDataSet → ∀ f ∈ b.fields, Measured f)
    (hrun : (i.run (updates.map Update.action)).2.1 = packets.map reportOf)
    (h : Knows past v) :
    Knows (past ++ packets) (ImuWithLib.main i v updates).2 := by
  induction updates generalizing i v past packets with
  | nil =>
    obtain rfl : packets = [] := List.map_eq_nil_iff.mp hrun.symm
    rw [List.append_nil]
    exact h
  | cons u updates ih =>
    rw [List.map_cons, Interface.run] at hrun
    obtain ⟨now, later, rfl, hnow, hlater⟩ := List.map_eq_append_iff.mp hrun.symm
    have hmem : ∀ b ∈ now, b ∈ now ++ later := fun b hb => List.mem_append_left _ hb
    have htold := told_update i u.port u.now u.later
    have hevents : (i.update u.port u.now u.later).1 = now.map reportOf := hnow.symm
    rw [hevents] at htold
    have hone := h.foldl now (fun b hb => hmeasured b (hmem b hb)) htold
    have hrest := ih (i := (i.update u.port u.now u.later).2) later
      (fun b hb => hmeasured b (List.mem_append_right _ hb)) hlater.symm hone
    rw [List.append_assoc] at hrest
    rw [← hevents] at hrest
    exact hrest

/-- The callback of the program is called for the packets of the sensor. -/
theorem findCallback_callbacks (m : Memory) (packetTimeoutVal : ℕ) (d : UInt8) :
    ((Interface.init m packetTimeoutVal).addCallbacks callbacks).findCallback d =
      if d = ahrsDataSet then some 1 else none := by
  have hlist (slot : ℕ) : ((Interface.init m packetTimeoutVal).addCallbacks
      callbacks).callbackDataSetList slot = if slot = 1 then ahrsDataSet else 0 :=
    Function.update_apply _ _ _ _
  by_cases hd : d = ahrsDataSet
  · subst hd
    rw [if_pos rfl]
    rfl
  · rw [if_neg hd, Interface.findCallback]
    split_ifs with hzero
    · rfl
    · refine List.find?_eq_none.mpr fun slot _ => ?_
      rw [hlist]
      split_ifs
      · simp [Ne.symm hd]
      · simp [Ne.symm hzero]

/-- A call of `mip_interface_update` while no bytes arrive. -/
def quiet (t : ℕ × ℕ) : Update := ⟨silent, t.1, t.2⟩

/-- Packets that were built arrive in the variables, if nothing is late: each variable shows the
last field of its kind, with its numbers in the order of this machine, and the callback counted the
packets of its set. -/
theorem run_values (m : Memory) (packetTimeoutVal : ℕ) (packets : List (List UInt8 × Body))
    (hgaps : ∀ p ∈ packets, syncByte1 ∉ p.1)
    (hmeasured : ∀ p ∈ packets, p.2.descriptorSet = ahrsDataSet → ∀ f ∈ p.2.fields, Measured f)
    (updates : List Update) (times : List (ℕ × ℕ)) (htimes : inputRingBufferSize < times.length)
    (hstream : (((Interface.init m packetTimeoutVal).addCallbacks callbacks).run
      (updates.map Update.action)).1 = streamOf packets)
    (hno : ∀ e ∈ (((Interface.init m packetTimeoutVal).addCallbacks callbacks).run
      ((updates ++ times.map quiet).map Update.action)).2.1, e.isTimeout = false) :
    let v := (main ((Interface.init m packetTimeoutVal).addCallbacks callbacks) .init
      (updates ++ times.map quiet)).2
    let sensor := sensorPackets (packets.map Prod.snd)
    let fields := sensor.flatMap Body.fields
    v.validPacketCount = u32 sensor.length ∧ v.timeoutPacketCount = 0 ∧
      v.checksumErrorPacketCount = 0 ∧
      v.currGyro.bytes 0 12 = shown turned gyroScaled fields ∧
      v.currAccel.bytes 0 12 = shown turned accelScaled fields ∧
      v.currEuler.bytes 0 12 =
        shown (fun data => inDegrees (turned data)) eulerAngles fields := by
  have hquiet : (updates ++ times.map quiet).map Update.action =
      updates.map Update.action ++ times.map fun t => .update silent t.1 t.2 := by
    rw [List.map_append, List.map_map]
    rfl
  rw [hquiet] at hno
  obtain ⟨hat, -⟩ := at_addCallbacks m packetTimeoutVal callbacks
  have hevents := hat.run_streamOf packets hgaps (updates.map Update.action) times htimes hstream
    hno
  rw [← hquiet] at hevents
  -- In time, what is reported are the packets, and those of the sensor go to the callback.
  have hreports : (packets.map fun p => Event.packet .validPacket p.2.encode
      (((Interface.init m packetTimeoutVal).addCallbacks callbacks).findCallback
        p.2.descriptorSet)) = (packets.map Prod.snd).map reportOf := by
    rw [List.map_map]
    refine List.map_congr_left fun p _ => ?_
    rw [findCallback_callbacks]
    rfl
  have hall : ∀ b ∈ packets.map Prod.snd, b.descriptorSet = ahrsDataSet →
      ∀ f ∈ b.fields, Measured f := by
    intro b hb
    obtain ⟨p, hp, rfl⟩ := List.mem_map.mp hb
    exact hmeasured p hp
  obtain ⟨hshows, hcounts⟩ := knows_init.main (updates ++ times.map quiet)
    (packets.map Prod.snd) hall (hevents.trans hreports)
  rw [List.nil_append] at hshows hcounts
  obtain ⟨hvalid, hrest⟩ := Prod.mk.inj hcounts
  obtain ⟨htimeout, hchecksum⟩ := Prod.mk.inj hrest
  exact ⟨hvalid, htimeout, hchecksum, hshows.gyro, hshows.accel, hshows.euler⟩

/-- A packet with the three numbers of the gyro, and the angles one, zero and one. -/
def gyroPacket : Body :=
  ⟨ahrsDataSet, [⟨gyroScaled, [1, 2, 3, 4, 5, 6, 7, 8, 9, 10, 11, 12]⟩,
    ⟨eulerAngles, [0x3F, 0x80, 0, 0, 0, 0, 0, 0, 0x3F, 0x80, 0, 0]⟩], by decide⟩

/-- A port that has this packet. -/
def gyroPort : Interface.Port :=
  ⟨34, fun n => gyroPacket.encode.take n, fun n => List.length_take_le n _⟩

/-- The numbers of this packet are shown, each with its bytes in the other order, and the angles in
degrees. -/
theorem run_values_gyro : ∃ times : List (ℕ × ℕ),
    let v := (main ((Interface.init (fun _ => 0) 30).addCallbacks callbacks) .init
      ([⟨gyroPort, 0, 0⟩] ++ times.map quiet)).2
    v.validPacketCount = 1 ∧ v.currGyro.bytes 0 12 = [4, 3, 2, 1, 8, 7, 6, 5, 12, 11, 10, 9] ∧
      v.currEuler.bytes 0 12 = [0xE1, 0x2E, 0x65, 0x42, 0, 0, 0, 0, 0xE1, 0x2E, 0x65, 0x42] := by
  obtain ⟨times, htimes⟩ := exists_times
  have hquiet : ([(⟨gyroPort, 0, 0⟩ : Update)] ++ times.map quiet).map Update.action =
      [.update gyroPort 0 0] ++ times.map fun t => .update silent t.1 t.2 := by
    rw [List.map_append, List.map_map]
    rfl
  have hno := in_time_of_settled (fun _ => 0) 30 callbacks [.update gyroPort 0 0] times
    (by decide +kernel) (by decide +kernel) (by decide +kernel)
  rw [← hquiet] at hno
  obtain ⟨hvalid, -, -, hgyro, -, heuler⟩ := run_values (fun _ => 0) 30
    [([], gyroPacket)] (by decide) (by unfold Measured; decide) [⟨gyroPort, 0, 0⟩] times htimes
    (by decide +kernel) hno
  exact ⟨times, hvalid, hgyro, heuler.trans (by decide +kernel)⟩

end ImuWithLib

end Guillemot.Mip
