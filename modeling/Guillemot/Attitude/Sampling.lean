import Guillemot.Library.Steps
import Mathlib.Data.UInt

/-!
# Sampling the IMU

`sampleGyro`, `sampleAccel` and `sampleMag` of `SubAttitudeResolver` against `loop` of the sketch on
the IMU, over two serial links that keep the order and may delay any byte for any time. Noise bytes
may appear anywhere on the link to the host. The three sample functions differ in their command
only: each calls `syncSerial`, which writes the command and waits for the three sync bytes, from the
start again and with the command written once more after a timeout or any other byte; then it reads
six bytes and copies them.

A reply does not say which sensor it is from. A byte on the link is tagged with the reply that it is
part of and its place there, which the host never looks at.

A command that is written again is answered again, so that replies are left for the calls behind.
`System.outstanding` are the replies to come, whether they are on the link or still commands. A call
takes the first of them, if neither noise nor a timeout falls into a reply that it has begun to read
(`Heads.step`). In a run in which that one is of the kind of the call, each time a call begins or
starts over behind a sync byte, every call copies a reply to its own command (`ownReply_of_run`). A
call that is out of turn copies another (`ownReply_iff_first`).
-/

namespace Guillemot.Attitude

/-! ## The firmware -/

/-- The sensors. -/
inductive Kind where
  | gyro
  | accel
  | mag
deriving DecidableEq, Repr

/-- The commands of the three sample functions. -/
def Kind.command : Kind → Char
  | .gyro => 'G'
  | .accel => 'A'
  | .mag => 'M'

/-- The first of the sync bytes in front of a reply. -/
def firstSync : UInt8 := 0xF1

/-- The second sync byte. -/
def secondSync : UInt8 := 0xF5

/-- The third sync byte. -/
def thirdSync : UInt8 := 0xF9

/-- A reply of the firmware, with its number and the readings in it. -/
structure Reply where
  id : ℕ
  kind : Kind
  x : UInt16
  y : UInt16
  z : UInt16
deriving DecidableEq, Repr

/-- `memcpy` of a 16-bit number into a buffer: the low byte first. -/
def bytesOf (n : UInt16) : List UInt8 := [n.toUInt8, (n >>> 8).toUInt8]

/-- The buffer of a reply. -/
def Reply.buf (r : Reply) : List UInt8 :=
  [firstSync, secondSync, thirdSync] ++ bytesOf r.x ++ bytesOf r.y ++ bytesOf r.z

/-- `readGyro`. -/
def readGyro (id : ℕ) (x y z : UInt16) : Reply := ⟨id, .gyro, x, y, z⟩

/-- `readAccelerometer`. -/
def readAccelerometer (id : ℕ) (x y z : UInt16) : Reply := ⟨id, .accel, x, y, z⟩

/-- `readMagnetometer`. -/
def readMagnetometer (id : ℕ) (x y z : UInt16) : Reply := ⟨id, .mag, x, y, z⟩

/-- `loop` with a command that has arrived, and what the sensor reads. -/
def loop (command : Char) (id : ℕ) (x y z : UInt16) : Option Reply :=
  if command = 'G' then some (readGyro id x y z)
  else if command = 'A' then some (readAccelerometer id x y z)
  else if command = 'M' then some (readMagnetometer id x y z)
  else none

/-! ## The links -/

/-- A byte of a reply, by its place. -/
structure Source where
  reply : Reply
  pos : ℕ
deriving DecidableEq, Repr

/-- A byte on the link to the host. -/
inductive LinkByte where
  | noise (b : UInt8)
  | sent (source : Source)
deriving DecidableEq, Repr

/-- What the host sees of a byte. -/
def LinkByte.value : LinkByte → UInt8
  | .noise b => b
  | .sent source => source.reply.buf.getD source.pos 0

/-- The reply that a byte is part of, and its place. -/
def LinkByte.source? : LinkByte → Option Source
  | .noise _ => none
  | .sent source => some source

/-- The bytes of a reply from one place to another. -/
def Reply.bytes (r : Reply) (start length : ℕ) : List LinkByte :=
  (List.range' start length).map fun pos => .sent ⟨r, pos⟩

/-! ## The host -/

/-- A completed call: its kind, and the six bytes that it copied. -/
structure Copied where
  kind : Kind
  readBuf : List LinkByte
deriving DecidableEq, Repr

/-- Where the host is: in no sample function, in `syncSerial` with some sync bytes read, or reading
the six bytes. -/
inductive Phase where
  | idle
  | syncing (kind : Kind) (matched : ℕ)
  | collecting (kind : Kind) (readBuf : List LinkByte)
deriving DecidableEq, Repr

/-- Host, firmware and links. Of the record, `last` is the last byte of the firmware that the host
has read. -/
structure System where
  phase : Phase
  toFirmware : List Char
  served : ℕ
  toHost : List LinkByte
  last : Option Source
  copied : List Copied
deriving DecidableEq, Repr

/-- The start: nothing on the links. -/
def System.init : System := ⟨.idle, [], 0, [], none, []⟩

/-- The sync byte that is waited for. -/
def syncByte : ℕ → UInt8
  | 0 => firstSync
  | 1 => secondSync
  | _ => thirdSync

/-- What can happen. Where the host asks `ros::ok()`, `ok` is the answer. -/
inductive Event where
  /-- A sample function is called. -/
  | call (kind : Kind)
  /-- The firmware runs `loop` when a command has arrived. -/
  | loop (x y z : UInt16)
  /-- A noise byte appears on the link to the host. -/
  | noise (place : ℕ) (b : UInt8)
  /-- `Read` returns the next byte. -/
  | read (ok : Bool)
  /-- `Read` returns without a byte. -/
  | timeout (ok : Bool)
deriving DecidableEq, Repr

/-- The next round of `syncSerial`: it writes the command. -/
def System.writeChar (s : System) (kind : Kind) (ok : Bool) : System :=
  if ok then { s with toFirmware := s.toFirmware ++ [kind.command], phase := .syncing kind 0 }
  else { s with phase := .idle }

/-- What the host does with a byte that it has read. -/
def System.take (s : System) (b : LinkByte) (ok : Bool) : Option System :=
  match s.phase with
  | .idle => none
  | .syncing kind matched =>
    if b.value = syncByte matched then
      if matched < 2 then some { s with phase := .syncing kind (matched + 1) }
      else some { s with phase := if ok then .collecting kind [] else .idle }
    else some (s.writeChar kind ok)
  | .collecting kind readBuf =>
    if readBuf.length + 1 < 6 then
      some { s with phase := if ok then .collecting kind (readBuf ++ [b]) else .idle }
    else some { s with phase := .idle, copied := s.copied ++ [⟨kind, readBuf ++ [b]⟩] }

/-- One step; `none` where it cannot happen. -/
def System.step (s : System) : Event → Option System
  | .call kind =>
    match s.phase with
    | .idle => some (s.writeChar kind true)
    | _ => none
  | .loop x y z =>
    match s.toFirmware with
    | [] => none
    | command :: rest =>
      match Guillemot.Attitude.loop command s.served x y z with
      | none => some { s with toFirmware := rest }
      | some reply => some { s with
          toFirmware := rest
          served := s.served + 1
          toHost := s.toHost ++ reply.bytes 0 9 }
  | .noise place b =>
    some { s with toHost := s.toHost.take place ++ .noise b :: s.toHost.drop place }
  | .read ok =>
    match s.toHost with
    | [] => none
    | b :: rest => { s with toHost := rest, last := b.source?.or s.last }.take b ok
  | .timeout ok =>
    match s.phase with
    | .idle => none
    | .syncing kind _ => some (s.writeChar kind ok)
    | .collecting _ _ => some (if ok then s else { s with phase := .idle })

/-- The numbers that a call puts into `*pRawX`, `*pRawY` and `*pRawZ`. -/
def Copied.outputs (c : Copied) : List UInt16 :=
  let byte (i : ℕ) : UInt16 := (c.readBuf.map LinkByte.value).getD i 0 |>.toUInt16
  [byte 0 ||| byte 1 <<< 8, byte 2 ||| byte 3 <<< 8, byte 4 ||| byte 5 <<< 8]

/-! ## Replies that are outstanding -/

/-- The sensor of a command. -/
def Kind.ofCommand (command : Char) : Option Kind :=
  if command = 'G' then some .gyro
  else if command = 'A' then some .accel
  else if command = 'M' then some .mag
  else none

/-- The kind of the reply that begins with a byte. -/
def LinkByte.begins? : LinkByte → Option Kind
  | .noise _ => none
  | .sent source => if source.pos = 0 then some source.reply.kind else none

/-- The replies of which nothing was read: those on the link to the host, and then those to the
commands on the link to the firmware. -/
def System.outstanding (s : System) : List Kind :=
  s.toHost.filterMap LinkByte.begins? ++ s.toFirmware.filterMap Kind.ofCommand

/-- What is left of the reply that a byte is part of. -/
def restOf : Option Source → List UInt8
  | none => []
  | some source => source.reply.buf.drop (source.pos + 1)

/-- Bytes that `syncSerial` reads without being synchronised or beginning to be. -/
def Passed : ℕ → List UInt8 → Prop
  | matched, [] => matched = 0
  | matched, b :: bytes =>
    if b = syncByte matched then matched < 2 ∧ Passed (matched + 1) bytes else Passed 0 bytes

instance decidablePassed : (matched : ℕ) → (bytes : List UInt8) → Decidable (Passed matched bytes)
  | matched, [] => inferInstanceAs (Decidable (matched = 0))
  | matched, b :: bytes =>
    let _ := decidablePassed (matched + 1) bytes
    let _ := decidablePassed 0 bytes
    inferInstanceAs (Decidable
      (if b = syncByte matched then matched < 2 ∧ Passed (matched + 1) bytes else Passed 0 bytes))

/-- It is the turn of a kind: what is left of a reply is passed over, and the first reply that is
outstanding, if there is one, is of this kind. -/
def System.Ready (s : System) (kind : Kind) : Prop :=
  Passed 0 (restOf s.last) ∧ ∀ first ∈ s.outstanding.head?, first = kind

instance (s : System) (kind : Kind) : Decidable (s.Ready kind) :=
  inferInstanceAs (Decidable (_ ∧ _))

/-- The last byte of the firmware among some bytes, or else the one before. -/
def lastOf : Option Source → List LinkByte → Option Source
  | before, [] => before
  | before, b :: bytes => lastOf (b.source?.or before) bytes

/-- A place where no reply has begun that has not ended. -/
def Boundary : Option Source → Prop
  | none => True
  | some source => source.pos = 8

instance : DecidablePred Boundary
  | none => inferInstanceAs (Decidable True)
  | some source => inferInstanceAs (Decidable (source.pos = 8))

/-- A noise byte between two replies that does not look like the first of one. -/
def System.Harmless (s : System) (place : ℕ) (b : UInt8) : Prop :=
  b ≠ firstSync ∧ Boundary (lastOf s.last (s.toHost.take place))

instance (s : System) (place : ℕ) (b : UInt8) : Decidable (s.Harmless place b) :=
  inferInstanceAs (Decidable (_ ∧ _))

/-- When the command of a call is written, and when it is written again because of a timeout behind
a sync byte, it is the turn of its kind. Noise is harmless. -/
def System.Orderly (s : System) : Event → Prop
  | .call kind => s.Ready kind
  | .noise place b => s.Harmless place b
  | .timeout _ =>
    match s.phase with
    | .syncing kind (_ + 1) => s.Ready kind
    | _ => True
  | _ => True

instance (s : System) (e : Event) : Decidable (s.Orderly e) := by
  unfold System.Orderly
  split
  · infer_instance
  · infer_instance
  · split <;> infer_instance
  · infer_instance

/-- Nothing disturbs a call: no other call, no timeout behind a sync byte, and harmless noise. -/
def System.Steady (s : System) : Event → Prop
  | .call _ => False
  | .noise place b => s.Harmless place b
  | .timeout _ =>
    match s.phase with
    | .syncing _ (_ + 1) => False
    | _ => True
  | _ => True

/-- A completed call has copied the six data bytes of one reply to its command. -/
def Copied.OwnReply (c : Copied) : Prop :=
  ∃ r : Reply, r.kind = c.kind ∧ c.readBuf = r.bytes 3 6

/-! ## The link to the host -/

/-- What the firmware sends behind a byte: the next byte of the same reply, or the first of one. -/
def Succeeds : Option Source → Source → Prop
  | none, next => next.pos = 0
  | some source, next =>
    (source.pos < 8 ∧ next = ⟨source.reply, source.pos + 1⟩) ∨ (source.pos = 8 ∧ next.pos = 0)

/-- Bytes of the firmware in the order in which it sends them, with harmless noise. -/
def Clear : Option Source → List LinkByte → Prop
  | _, [] => True
  | before, .noise b :: bytes => b ≠ firstSync ∧ Boundary before ∧ Clear before bytes
  | before, .sent source :: bytes => Succeeds before source ∧ Clear (some source) bytes

theorem lastOf_append (before : Option Source) (xs ys : List LinkByte) :
    lastOf before (xs ++ ys) = lastOf (lastOf before xs) ys := by
  induction xs generalizing before with
  | nil => rfl
  | cons b xs ih => exact ih _

theorem clear_append {before : Option Source} {xs ys : List LinkByte} :
    Clear before (xs ++ ys) ↔ Clear before xs ∧ Clear (lastOf before xs) ys := by
  induction xs generalizing before with
  | nil => exact (and_iff_right trivial).symm
  | cons b xs ih =>
    cases b with
    | noise b => simp only [List.cons_append, Clear, ih, lastOf, LinkByte.source?, Option.none_or,
        and_assoc]
    | sent source => simp only [List.cons_append, Clear, ih, lastOf, LinkByte.source?,
        Option.some_or, and_assoc]

/-- The bytes of a reply behind a place in it. -/
theorem clear_bytes (r : Reply) {start length : ℕ} (h : start + length ≤ 8) :
    Clear (some ⟨r, start⟩) (r.bytes (start + 1) length) ∧
      lastOf (some ⟨r, start⟩) (r.bytes (start + 1) length) = some ⟨r, start + length⟩ := by
  induction length generalizing start with
  | zero => exact ⟨trivial, rfl⟩
  | succ length ih =>
    obtain ⟨hclear, hlast⟩ := ih (show start + 1 + length ≤ 8 by omega)
    have hplace : start + (length + 1) = start + 1 + length := by omega
    rw [hplace]
    exact ⟨⟨.inl ⟨show start < 8 by omega, rfl⟩, hclear⟩, hlast⟩

/-- Behind the end of a reply another one comes, and ends. -/
theorem clear_reply {before : Option Source} (h : Boundary before) (r : Reply) :
    Clear before (r.bytes 0 9) ∧ Boundary (lastOf before (r.bytes 0 9)) := by
  obtain ⟨hclear, hlast⟩ := clear_bytes r (show 0 + 8 ≤ 8 by omega)
  have hfirst : Succeeds before ⟨r, 0⟩ := by
    cases before with
    | none => rfl
    | some source => exact .inr ⟨h, rfl⟩
  refine ⟨⟨hfirst, hclear⟩, ?_⟩
  show Boundary (lastOf (some ⟨r, 0⟩) (r.bytes 1 8))
  rw [hlast]
  rfl

/-- The link to the host is in order, and ends with the end of a reply. -/
structure Sound (s : System) : Prop where
  clear : Clear s.last s.toHost
  ends : Boundary (lastOf s.last s.toHost)

theorem sound_init : Sound .init := ⟨trivial, trivial⟩

/-- Reading a byte. -/
theorem Sound.tail {s : System} (h : Sound s) {b : LinkByte} {bytes : List LinkByte}
    (hlink : s.toHost = b :: bytes) :
    Sound { s with toHost := bytes, last := b.source?.or s.last } := by
  obtain ⟨hclear, hends⟩ := h
  rw [hlink] at hclear hends
  refine ⟨?_, hends⟩
  cases b with
  | noise b => exact hclear.2.2
  | sent source => exact hclear.2

theorem Sound.writeChar {s : System} (h : Sound s) (kind : Kind) (ok : Bool) :
    Sound (s.writeChar kind ok) := by
  unfold System.writeChar
  split_ifs
  · exact ⟨h.clear, h.ends⟩
  · exact ⟨h.clear, h.ends⟩

/-- What the host does with a byte changes nothing on its link. -/
theorem Sound.take {s t : System} (h : Sound s) {b : LinkByte} {ok : Bool}
    (hstep : s.take b ok = some t) : Sound t := by
  unfold System.take at hstep
  split at hstep
  · cases hstep
  · split_ifs at hstep
    all_goals obtain rfl := Option.some.inj hstep
    · exact ⟨h.clear, h.ends⟩
    · exact ⟨h.clear, h.ends⟩
    · exact ⟨h.clear, h.ends⟩
    · exact h.writeChar _ ok
  · split_ifs at hstep
    all_goals obtain rfl := Option.some.inj hstep
    · exact ⟨h.clear, h.ends⟩
    · exact ⟨h.clear, h.ends⟩
    · exact ⟨h.clear, h.ends⟩

/-- Every step with harmless noise keeps the link in order. -/
theorem Sound.step {s t : System} (h : Sound s) {e : Event}
    (hnoise : ∀ place b, e = .noise place b → s.Harmless place b) (hstep : s.step e = some t) :
    Sound t := by
  cases e with
  | call kind =>
    simp only [System.step] at hstep
    split at hstep
    · obtain rfl := Option.some.inj hstep
      exact h.writeChar kind true
    · cases hstep
  | loop x y z =>
    simp only [System.step] at hstep
    split at hstep
    · cases hstep
    · split at hstep
      · obtain rfl := Option.some.inj hstep
        exact ⟨h.clear, h.ends⟩
      · next reply _ =>
        obtain rfl := Option.some.inj hstep
        -- a whole reply comes behind the end of another one
        obtain ⟨hclear, hends⟩ := clear_reply h.ends reply
        refine ⟨clear_append.mpr ⟨h.clear, hclear⟩, ?_⟩
        show Boundary (lastOf s.last (s.toHost ++ reply.bytes 0 9))
        rwa [lastOf_append]
  | noise place b =>
    obtain rfl := Option.some.inj hstep
    obtain ⟨hb, hplace⟩ := hnoise place b rfl
    have hclear := h.clear
    have hends := h.ends
    rw [← List.take_append_drop place s.toHost] at hclear hends
    rw [clear_append] at hclear
    rw [lastOf_append] at hends
    refine ⟨clear_append.mpr ⟨hclear.1, hb, hplace, hclear.2⟩, ?_⟩
    show Boundary (lastOf s.last (s.toHost.take place ++ .noise b :: s.toHost.drop place))
    rw [lastOf_append]
    exact hends
  | read ok =>
    simp only [System.step] at hstep
    split at hstep
    · cases hstep
    · next hlink => exact (h.tail hlink).take hstep
  | timeout ok =>
    simp only [System.step] at hstep
    split at hstep
    · cases hstep
    · obtain rfl := Option.some.inj hstep
      exact h.writeChar _ ok
    · obtain rfl := Option.some.inj hstep
      split_ifs
      · exact h
      · exact ⟨h.clear, h.ends⟩

/-! ## The reply that a call takes -/

theorem ofCommand_command (kind : Kind) : Kind.ofCommand kind.command = some kind := by
  cases kind <;> rfl

/-- The firmware replies to a command with a reading of its sensor. -/
theorem loop_eq (command : Char) (id : ℕ) (x y z : UInt16) :
    loop command id x y z = (Kind.ofCommand command).map fun kind => ⟨id, kind, x, y, z⟩ := by
  unfold loop Kind.ofCommand
  split_ifs <;> rfl

/-- One reply begins with the bytes of a reply. -/
theorem begins_reply (r : Reply) : (r.bytes 0 9).filterMap LinkByte.begins? = [r.kind] := rfl

/-- The sensor of the call in progress. -/
def Phase.kind? : Phase → Option Kind
  | .idle => none
  | .syncing kind _ => some kind
  | .collecting kind _ => some kind

/-- The call in progress takes a reply to a command of the kind `first`: it has begun to read it, or
it is the first that is outstanding, and what comes before is passed over. -/
def System.Heads (s : System) (first : Kind) : Prop :=
  match s.phase with
  | .idle => True
  | .syncing _ matched =>
    (∃ r : Reply, ∃ pos < 2, r.kind = first ∧ matched = pos + 1 ∧ s.last = some ⟨r, pos⟩) ∨
      (Passed matched (restOf s.last) ∧ s.outstanding.head? = some first)
  | .collecting _ readBuf =>
    ∃ r : Reply, r.kind = first ∧ readBuf.length < 6 ∧ readBuf = r.bytes 3 readBuf.length ∧
      s.last = some ⟨r, 2 + readBuf.length⟩

/-- The call that is in progress goes on, or ends; it has copied a reply to a command of the kind
`first` then, or nothing. -/
def Proceeds (first : Kind) (s t : System) : Prop :=
  (t.phase.kind? = s.phase.kind? ∧ t.Heads first ∧ t.copied = s.copied) ∨
    (t.phase = .idle ∧ (t.copied = s.copied ∨ ∃ kind, ∃ r : Reply, s.phase.kind? = some kind ∧
      r.kind = first ∧ t.copied = s.copied ++ [⟨kind, r.bytes 3 6⟩]))

/-- Behind the end of a reply there is nothing left of it. -/
theorem restOf_boundary {before : Option Source} (h : Boundary before) : restOf before = [] := by
  cases before with
  | none => rfl
  | some source =>
    have hpos : source.pos = 8 := h
    have hlen : source.reply.buf.length = 9 := rfl
    refine List.drop_eq_nil_of_le ?_
    omega

/-- The next byte of a reply, and what is left of it. -/
theorem restOf_of_lt (r : Reply) {pos : ℕ} (h : pos < 8) :
    restOf (some ⟨r, pos⟩) = (LinkByte.sent ⟨r, pos + 1⟩).value :: restOf (some ⟨r, pos + 1⟩) := by
  have hlt : pos + 1 < r.buf.length := show pos + 1 < 9 by omega
  have hbyte : r.buf[pos + 1] = r.buf.getD (pos + 1) 0 := List.getElem_eq_getD 0
  show r.buf.drop (pos + 1) = r.buf.getD (pos + 1) 0 :: r.buf.drop (pos + 1 + 1)
  rw [← hbyte, ← List.drop_eq_getElem_cons hlt]

/-- The sync bytes of a reply. -/
theorem value_sync (r : Reply) {pos : ℕ} (h : pos < 3) :
    (LinkByte.sent ⟨r, pos⟩).value = syncByte pos := by
  match pos, h with
  | 0, _ => rfl
  | 1, _ => rfl
  | 2, _ => rfl

/-- A command that is written anew leaves the first reply that is outstanding the first. -/
theorem heads_writeChar {s : System} {kind first : Kind} (hpassed : Passed 0 (restOf s.last))
    (hfirst : s.outstanding.head?.getD kind = first) (ok : Bool) :
    (s.writeChar kind ok).Heads first := by
  unfold System.writeChar
  split_ifs
  · refine .inr ⟨hpassed, ?_⟩
    show (s.toHost.filterMap LinkByte.begins? ++
      (s.toFirmware ++ [kind.command]).filterMap Kind.ofCommand).head? = some first
    rw [List.filterMap_append, ← List.append_assoc]
    have hkind : [kind.command].filterMap Kind.ofCommand = [kind] := by
      simp [ofCommand_command]
    rw [hkind, ← hfirst]
    show (s.outstanding ++ [kind]).head? = _
    cases s.outstanding <;> rfl
  · exact trivial

theorem proceeds_writeChar {s : System} {kind first : Kind} (hkind : s.phase.kind? = some kind)
    (hpassed : Passed 0 (restOf s.last)) (hfirst : s.outstanding.head?.getD kind = first)
    (ok : Bool) : Proceeds first s (s.writeChar kind ok) := by
  have hheads := heads_writeChar hpassed hfirst ok
  unfold System.writeChar at hheads ⊢
  split_ifs with hok
  · rw [if_pos hok] at hheads
    exact .inl ⟨hkind.symm, hheads, rfl⟩
  · exact .inr ⟨rfl, .inl rfl⟩

/-- Behind a byte of a reply that is not its last comes the next one. -/
theorem eq_next_of_clear {r : Reply} {pos : ℕ} {b : LinkByte} {bytes : List LinkByte}
    (h : Clear (some ⟨r, pos⟩) (b :: bytes)) (hpos : pos < 8) : b = .sent ⟨r, pos + 1⟩ := by
  cases b with
  | noise b =>
    have hend : pos = 8 := h.2.1
    omega
  | sent source =>
    obtain ⟨-, hnext⟩ | ⟨hend, -⟩ := h.1
    · exact congrArg LinkByte.sent hnext
    · have hend : pos = 8 := hend
      omega

/-- A byte of the firmware is the first one of a reply, or the next one of the reply before it. -/
theorem succeeds_cases {last : Option Source} {source : Source} (h : Succeeds last source) :
    (Boundary last ∧ source.pos = 0) ∨
      ∃ r pos, pos < 8 ∧ last = some ⟨r, pos⟩ ∧ source = ⟨r, pos + 1⟩ := by
  rcases last with _ | ⟨r, pos⟩
  · exact .inl ⟨trivial, h⟩
  · exact h.elim (fun hnext => .inr ⟨r, pos, hnext.1, rfl, hnext.2⟩) fun hfirst => .inl hfirst

/-- The data bytes of a reply, one after the other. -/
theorem bytes_concat (r : Reply) (n : ℕ) :
    r.bytes 3 n ++ [.sent ⟨r, 3 + n⟩] = r.bytes 3 (n + 1) := by
  unfold Reply.bytes
  rw [List.range'_concat, List.map_append, Nat.one_mul]
  rfl

/-- A byte that does not begin a reply leaves those that are outstanding. -/
theorem outstanding_tail {s : System} {b : LinkByte} {bytes : List LinkByte}
    (hlink : s.toHost = b :: bytes) (hb : b.begins? = none) (last : Option Source) :
    System.outstanding { s with toHost := bytes, last := last } = s.outstanding := by
  show bytes.filterMap _ ++ _ = s.toHost.filterMap _ ++ _
  rw [hlink, List.filterMap_cons_none hb]

/-- The first byte of a reply takes it off those that are outstanding. -/
theorem head_outstanding {s : System} {source : Source} {bytes : List LinkByte}
    (hlink : s.toHost = .sent source :: bytes) (hpos : source.pos = 0) :
    s.outstanding.head? = some source.reply.kind := by
  have hbegins : LinkByte.begins? (.sent source) = some source.reply.kind := if_pos hpos
  show (s.toHost.filterMap _ ++ _).head? = _
  rw [hlink, List.filterMap_cons_some hbegins]
  rfl

/-- What is done with a byte in `syncSerial`. -/
theorem take_syncing {s : System} {kind : Kind} {matched : ℕ}
    (h : s.phase = .syncing kind matched) (b : LinkByte) (ok : Bool) :
    s.take b ok =
      if b.value = syncByte matched then
        if matched < 2 then some { s with phase := .syncing kind (matched + 1) }
        else some { s with phase := if ok then .collecting kind [] else .idle }
      else some (s.writeChar kind ok) := by
  unfold System.take
  rw [h]

/-- What is done with a byte behind `syncSerial`. -/
theorem take_collecting {s : System} {kind : Kind} {readBuf : List LinkByte}
    (h : s.phase = .collecting kind readBuf) (b : LinkByte) (ok : Bool) :
    s.take b ok =
      if readBuf.length + 1 < 6 then
        some { s with phase := if ok then .collecting kind (readBuf ++ [b]) else .idle }
      else
        some { s with phase := .idle, copied := s.copied ++ [⟨kind, readBuf ++ [b]⟩] } := by
  unfold System.take
  rw [h]

/-- A byte that is read while `syncSerial` passes bytes over, or begins to read the first reply that
is outstanding. -/
theorem proceeds_passing {s t : System} {kind first : Kind} {matched : ℕ} {b : LinkByte}
    {bytes : List LinkByte} {ok : Bool} (hsound : Sound s)
    (hphase : s.phase = .syncing kind matched) (hpassed : Passed matched (restOf s.last))
    (hfirst : s.outstanding.head? = some first) (hlink : s.toHost = b :: bytes)
    (hstep : System.take { s with toHost := bytes, last := b.source?.or s.last } b ok = some t) :
    Proceeds first s t := by
  have hclear := hsound.clear
  rw [hlink] at hclear
  have hkind : s.phase.kind? = some kind := by rw [hphase]; rfl
  have hagain {last : Option Source} (hbegins : b.begins? = none)
      (hpassed : Passed 0 (restOf last)) :
      Proceeds first s (System.writeChar { s with toHost := bytes, last := last } kind ok) := by
    have hhead : (System.outstanding { s with toHost := bytes, last := last }).head?.getD kind =
        first := by
      rw [outstanding_tail hlink hbegins, hfirst]
      rfl
    exact proceeds_writeChar (s := { s with toHost := bytes, last := last }) hkind hpassed hhead ok
  rw [take_syncing (s := { s with toHost := bytes, last := b.source?.or s.last }) hphase] at hstep
  cases b with
  | noise v =>
    -- noise lies between two replies, and is no first sync byte
    obtain ⟨hv, hboundary, -⟩ := hclear
    rw [restOf_boundary hboundary] at hpassed
    obtain rfl : matched = 0 := hpassed
    have hother : ¬(LinkByte.noise v).value = syncByte 0 := hv
    rw [if_neg hother] at hstep
    obtain rfl := Option.some.inj hstep
    refine hagain rfl ?_
    show Passed 0 (restOf s.last)
    rw [restOf_boundary hboundary]
    rfl
  | sent source =>
    obtain ⟨hnext, -⟩ := hclear
    obtain ⟨hboundary, hpos⟩ | ⟨r, pos, hlt, hlast, rfl⟩ := succeeds_cases hnext
    · -- the first reply that is outstanding
      rw [restOf_boundary hboundary] at hpassed
      obtain rfl : matched = 0 := hpassed
      obtain ⟨r, pos⟩ := source
      obtain rfl : pos = 0 := hpos
      rw [if_pos (value_sync r (by decide)), if_pos (by decide)] at hstep
      obtain rfl := Option.some.inj hstep
      have hr : r.kind = first :=
        Option.some.inj ((head_outstanding hlink rfl).symm.trans hfirst)
      exact .inl ⟨hkind.symm, .inl ⟨r, 0, by decide, hr, rfl, rfl⟩, rfl⟩
    · -- the next byte of a reply that the host does not take
      rw [hlast, restOf_of_lt r hlt] at hpassed
      have hbegins : LinkByte.begins? (.sent ⟨r, pos + 1⟩) = none := by simp [LinkByte.begins?]
      by_cases hv : (LinkByte.sent ⟨r, pos + 1⟩).value = syncByte matched
      · rw [Passed, if_pos hv] at hpassed
        rw [if_pos hv, if_pos hpassed.1] at hstep
        obtain rfl := Option.some.inj hstep
        refine .inl ⟨hkind.symm, .inr ⟨hpassed.2, ?_⟩, rfl⟩
        exact (congrArg List.head? (outstanding_tail hlink hbegins
          (some ⟨r, pos + 1⟩))).trans hfirst
      · rw [Passed, if_neg hv] at hpassed
        rw [if_neg hv] at hstep
        obtain rfl := Option.some.inj hstep
        exact hagain hbegins hpassed

/-- A byte that is read brings the call further to its reply. -/
theorem Heads.read {s t : System} {first : Kind} {b : LinkByte} {bytes : List LinkByte} {ok : Bool}
    (hsound : Sound s) (h : s.Heads first) (hlink : s.toHost = b :: bytes)
    (hstep : System.take { s with toHost := bytes, last := b.source?.or s.last } b ok = some t) :
    Proceeds first s t := by
  have hclear := hsound.clear
  rw [hlink] at hclear
  unfold System.Heads at h
  rcases hphase : s.phase with _ | ⟨kind, matched⟩ | ⟨kind, readBuf⟩
  · simp [System.take, hphase] at hstep
  · have hkind : s.phase.kind? = some kind := by rw [hphase]; rfl
    simp only [hphase] at h
    obtain ⟨r, pos, hpos, hr, rfl, hlast⟩ | ⟨hpassed, hfirst⟩ := h
    · -- the next sync byte of the reply that was begun
      rw [hlast] at hclear
      rw [take_syncing (s := { s with toHost := bytes, last := b.source?.or s.last }) hphase]
        at hstep
      obtain rfl := eq_next_of_clear hclear (by omega)
      rw [if_pos (value_sync r (by omega))] at hstep
      split_ifs at hstep with hmore hok
      all_goals obtain rfl := Option.some.inj hstep
      · exact .inl ⟨hkind.symm, .inl ⟨r, pos + 1, hmore, hr, rfl, rfl⟩, rfl⟩
      · obtain rfl : pos = 1 := by omega
        exact .inl ⟨hkind.symm, ⟨r, hr, by decide, rfl, rfl⟩, rfl⟩
      · exact .inr ⟨rfl, .inl rfl⟩
    · exact proceeds_passing hsound hphase hpassed hfirst hlink hstep
  · have hkind : s.phase.kind? = some kind := by rw [hphase]; rfl
    simp only [hphase] at h
    obtain ⟨r, hr, hlen, hbuf, hlast⟩ := h
    rw [hlast] at hclear
    rw [take_collecting (s := { s with toHost := bytes, last := b.source?.or s.last }) hphase]
      at hstep
    obtain rfl := eq_next_of_clear hclear (by omega)
    have hplace : 2 + readBuf.length + 1 = 3 + readBuf.length := by omega
    -- the next data byte of the reply that is being read
    have hone : readBuf ++ [.sent ⟨r, 2 + readBuf.length + 1⟩] =
        r.bytes 3 (readBuf.length + 1) := by
      rw [hplace, ← bytes_concat, ← hbuf]
    rw [hone] at hstep
    split_ifs at hstep with hmore hok
    all_goals obtain rfl := Option.some.inj hstep
    · have hlength : (r.bytes 3 (readBuf.length + 1)).length = readBuf.length + 1 := by
        simp [Reply.bytes]
      refine .inl ⟨hkind.symm, ⟨r, hr, by omega, by rw [hlength], ?_⟩, rfl⟩
      rw [hlength]
      rfl
    · exact .inr ⟨rfl, .inl rfl⟩
    · obtain hsix : readBuf.length + 1 = 6 := by omega
      rw [hsix]
      exact .inr ⟨rfl, .inr ⟨kind, r, hkind, hr, rfl⟩⟩

/-- The firmware answers a command: the reply is outstanding as the command was. -/
theorem outstanding_loop {s t : System} {x y z : UInt16} (hstep : s.step (.loop x y z) = some t) :
    t.outstanding = s.outstanding ∧ t.phase = s.phase ∧ t.last = s.last ∧ t.copied = s.copied := by
  simp only [System.step] at hstep
  split at hstep
  · cases hstep
  · next command rest hcommands =>
    have hold : s.outstanding = s.toHost.filterMap LinkByte.begins? ++
        (command :: rest).filterMap Kind.ofCommand := by rw [System.outstanding, hcommands]
    rw [loop_eq] at hstep
    cases hkind : Kind.ofCommand command with
    | none =>
      rw [hkind] at hstep
      obtain rfl := Option.some.inj hstep
      refine ⟨?_, rfl, rfl, rfl⟩
      rw [hold, List.filterMap_cons_none hkind]
      rfl
    | some kind =>
      rw [hkind] at hstep
      obtain rfl := Option.some.inj hstep
      refine ⟨?_, rfl, rfl, rfl⟩
      rw [hold, List.filterMap_cons_some hkind]
      show (s.toHost ++ Reply.bytes _ 0 9).filterMap LinkByte.begins? ++ _ = _
      rw [List.filterMap_append, begins_reply, List.append_assoc]
      rfl

/-- Noise leaves the replies that are outstanding. -/
theorem outstanding_noise (s : System) (place : ℕ) (b : UInt8) :
    System.outstanding { s with
      toHost := s.toHost.take place ++ .noise b :: s.toHost.drop place } = s.outstanding := by
  have hnoise : LinkByte.begins? (.noise b) = none := rfl
  show List.filterMap _ (s.toHost.take place ++ .noise b :: s.toHost.drop place) ++ _ = _
  rw [List.filterMap_append, List.filterMap_cons_none hnoise, ← List.filterMap_append,
    List.take_append_drop]
  rfl

/-- What the call in progress heads for depends on these only. -/
theorem heads_congr {s t : System} {first : Kind} (houtstanding : t.outstanding = s.outstanding)
    (hphase : t.phase = s.phase) (hlast : t.last = s.last) : t.Heads first ↔ s.Heads first := by
  unfold System.Heads
  rw [hphase, hlast, houtstanding]

/-- A step that disturbs nothing brings the call in progress further to its reply. -/
theorem Heads.step {s t : System} {first : Kind} {e : Event} (hsound : Sound s)
    (h : s.Heads first) (hphase : s.phase ≠ .idle) (hsteady : s.Steady e)
    (hstep : s.step e = some t) : Proceeds first s t := by
  cases e with
  | call kind => cases hsteady
  | loop x y z =>
    obtain ⟨houtstanding, hsame, hlast, hcopied⟩ := outstanding_loop hstep
    exact .inl ⟨congrArg Phase.kind? hsame, (heads_congr houtstanding hsame hlast).mpr h, hcopied⟩
  | noise place b =>
    obtain rfl := Option.some.inj hstep
    exact .inl ⟨rfl, (heads_congr (outstanding_noise s place b) rfl rfl).mpr h, rfl⟩
  | read ok =>
    simp only [System.step] at hstep
    split at hstep
    · cases hstep
    · next hlink => exact Heads.read hsound h hlink hstep
  | timeout ok =>
    simp only [System.step] at hstep
    simp only [System.Steady] at hsteady
    split at hstep
    · next hidle => exact absurd hidle hphase
    · next kind matched hsyncing =>
      obtain rfl := Option.some.inj hstep
      have hkind : s.phase.kind? = some kind := by rw [hsyncing]; rfl
      -- no sync byte was read yet
      simp only [System.Heads, hsyncing] at h
      rw [hsyncing] at hsteady
      cases matched with
      | succ matched => cases hsteady
      | zero =>
        obtain ⟨_, _, _, _, hmatched, _⟩ | ⟨hpassed, hfirst⟩ := h
        · cases hmatched
        · exact proceeds_writeChar hkind hpassed (by rw [hfirst]; rfl) ok
    · obtain rfl := Option.some.inj hstep
      cases ok with
      | true => exact .inl ⟨rfl, h, rfl⟩
      | false => exact .inr ⟨rfl, .inl rfl⟩

/-! ## Runs -/

/-- What every orderly run keeps: the link is in order, the call in progress heads for a reply to
its own command, and the completed ones have copied such replies. -/
structure InTurn (s : System) : Prop where
  sound : Sound s
  heads : ∀ kind, s.phase.kind? = some kind → s.Heads kind
  own : ∀ c ∈ s.copied, c.OwnReply

theorem inTurn_init : InTurn .init := ⟨sound_init, nofun, List.forall_mem_nil _⟩

/-- A command that is written anew when it is the turn of its kind. -/
theorem InTurn.writeChar {s : System} {kind : Kind} (h : InTurn s) (hready : s.Ready kind)
    (ok : Bool) : InTurn (s.writeChar kind ok) := by
  obtain ⟨hpassed, hfirst⟩ := hready
  have hhead : s.outstanding.head?.getD kind = kind := by
    cases hhead : s.outstanding.head? with
    | none => rfl
    | some first => exact hfirst first hhead
  have hheads := heads_writeChar hpassed hhead ok
  refine ⟨h.sound.writeChar kind ok, fun kind' hkind => ?_, ?_⟩
  · unfold System.writeChar at hkind hheads ⊢
    cases ok with
    | true =>
      obtain rfl := Option.some.inj hkind
      exact hheads
    | false => cases hkind
  · unfold System.writeChar
    split_ifs <;> exact h.own

/-- What a step of the call in progress keeps. -/
theorem InTurn.proceeds {s t : System} (h : InTurn s) (ht : Sound t) {kind : Kind}
    (hkind : s.phase.kind? = some kind) (hproceeds : Proceeds kind s t) : InTurn t := by
  obtain ⟨hsame, hheads, hcopied⟩ | ⟨hidle, hcopied⟩ := hproceeds
  · refine ⟨ht, fun kind' hkind' => ?_, by rw [hcopied]; exact h.own⟩
    rw [hsame, hkind] at hkind'
    obtain rfl := Option.some.inj hkind'
    exact hheads
  · refine ⟨ht, fun kind' hkind' => ?_, fun c hc => ?_⟩
    · rw [hidle] at hkind'
      cases hkind'
    obtain hcopied | ⟨kind', r, hkind', hr, hcopied⟩ := hcopied
    · exact h.own c (by rwa [hcopied] at hc)
    · rw [hcopied] at hc
      rcases List.mem_append.mp hc with hc | hc
      · exact h.own c hc
      · obtain rfl := List.mem_singleton.mp hc
        rw [hkind] at hkind'
        obtain rfl := Option.some.inj hkind'
        exact ⟨r, hr, rfl⟩

/-- Outside the calls the host reads nothing. -/
theorem step_idle {s t : System} (hidle : s.phase = .idle) {e : Event}
    (hcall : ∀ kind, e ≠ .call kind) (hstep : s.step e = some t) :
    t.phase = .idle ∧ t.copied = s.copied := by
  cases e with
  | call kind => exact absurd rfl (hcall kind)
  | loop x y z =>
    obtain ⟨-, hsame, -, hcopied⟩ := outstanding_loop hstep
    exact ⟨hsame.trans hidle, hcopied⟩
  | noise place b =>
    obtain rfl := Option.some.inj hstep
    exact ⟨hidle, rfl⟩
  | read ok =>
    simp only [System.step] at hstep
    split at hstep
    · cases hstep
    · simp [System.take, hidle] at hstep
  | timeout ok => simp [System.step, hidle] at hstep

/-- A call is made outside the others. -/
theorem step_call {s t : System} {kind : Kind} (hstep : s.step (.call kind) = some t) :
    s.phase = .idle ∧ t = s.writeChar kind true := by
  simp only [System.step] at hstep
  split at hstep
  · next hidle => exact ⟨hidle, (Option.some.inj hstep).symm⟩
  · cases hstep

/-- Every orderly step keeps it. -/
theorem InTurn.step {s t : System} (h : InTurn s) {e : Event} (horderly : s.Orderly e)
    (hstep : s.step e = some t) : InTurn t := by
  have ht : Sound t := by
    refine h.sound.step (fun place b he => ?_) hstep
    subst he
    exact horderly
  by_cases hcall : ∃ kind, e = .call kind
  · obtain ⟨kind, rfl⟩ := hcall
    obtain ⟨-, rfl⟩ := step_call hstep
    exact h.writeChar horderly true
  by_cases hidle : s.phase = .idle
  · obtain ⟨hsame, hcopied⟩ := step_idle hidle (fun kind he => hcall ⟨kind, he⟩) hstep
    refine ⟨ht, fun kind hkind => ?_, ?_⟩
    · rw [hsame] at hkind
      cases hkind
    · rw [hcopied]
      exact h.own
  -- a call is in progress: it goes on, unless it times out with sync bytes read
  obtain ⟨kind, hkind⟩ : ∃ kind, s.phase.kind? = some kind := by
    rcases hphase : s.phase with _ | ⟨kind, matched⟩ | ⟨kind, readBuf⟩
    · exact absurd hphase hidle
    · exact ⟨kind, rfl⟩
    · exact ⟨kind, rfl⟩
  have hsteady : s.Steady e → InTurn t := fun hsteady =>
    h.proceeds ht hkind (Heads.step h.sound (h.heads kind hkind) hidle hsteady hstep)
  cases e with
  | call kind => exact absurd ⟨kind, rfl⟩ hcall
  | loop x y z => exact hsteady trivial
  | noise place b => exact hsteady horderly
  | read ok => exact hsteady trivial
  | timeout ok =>
    simp only [System.Orderly] at horderly
    simp only [System.Steady] at hsteady
    rcases hphase : s.phase with _ | ⟨kind', _ | matched⟩ | ⟨kind', readBuf⟩
    · exact absurd hphase hidle
    · rw [hphase] at hsteady
      exact hsteady trivial
    · -- the command is written again, with sync bytes read
      rw [hphase] at horderly
      simp only [System.step, hphase] at hstep
      obtain rfl := Option.some.inj hstep
      exact h.writeChar horderly ok
    · rw [hphase] at hsteady
      exact hsteady trivial

/-- In a run in which the commands are written when it is the turn of their kind, and noise is
harmless, every completed call has copied a reply to its own command. -/
theorem ownReply_of_run {s : System}
    (h : Relation.ReflTransGen (Steps.Moves System.step System.Orderly) .init s) :
    ∀ c ∈ s.copied, c.OwnReply :=
  (Steps.invariant_of_moves (I := InTurn) (fun _ _ _ hs horderly hstep => hs.step horderly hstep)
    inTurn_init h).own

/-- A call that reads a noise byte and, timed out, one sync byte too few. It takes the reply to the
command that it wrote because of the noise. -/
def disturbed : List Event :=
  [.call .gyro, .noise 0 0, .loop 1 2 3] ++ List.replicate 3 (.read true) ++
    [.timeout true, .loop 4 5 6] ++ List.replicate 16 (.read true)

/-- The disturbed call copies a reading of the gyro. -/
theorem ownReply_of_run_disturbed :
    ∃ s, Steps.run System.step System.Orderly disturbed .init = some s ∧
      s.copied.map Copied.outputs = [[4, 5, 6]] ∧ ∀ c ∈ s.copied, c.OwnReply := by
  have hrun : (Steps.run System.step System.Orderly disturbed .init).map
      (fun s => s.copied.map Copied.outputs) = some [[4, 5, 6]] := by
    decide +kernel
  obtain ⟨s, hs, houtputs⟩ := Option.map_eq_some_iff.mp hrun
  exact ⟨s, hs, houtputs, ownReply_of_run (Steps.moves_of_run hs)⟩

/-- One step of a run. -/
def System.Next (s t : System) : Prop := Steps.Moves System.step (fun _ _ => True) s t

/-- A call that times out once and sends its command twice. Its second reply is left for the next
call, of another kind. -/
def staleReply : List Event :=
  [.call .gyro, .timeout true, .loop 1 2 3, .loop 4 5 6] ++ List.replicate 9 (.read true) ++
    [.call .accel] ++ List.replicate 9 (.read true)

/-- The data bytes of a reply tell which reply it is. -/
theorem eq_of_bytes {r r' : Reply} (h : r.bytes 3 6 = r'.bytes 3 6) : r = r' := by
  simpa [Reply.bytes, List.range'] using congrArg List.head? h

/-- The reading of the gyro is copied as that of the accelerometer. -/
theorem gyro_copied_as_accel :
    ¬ ∀ s, Relation.ReflTransGen System.Next .init s → ∀ c ∈ s.copied, c.OwnReply := by
  intro h
  have hrun : (Steps.run System.step (fun _ _ => True) staleReply .init).map System.copied =
      some [⟨.gyro, (readGyro 0 1 2 3).bytes 3 6⟩, ⟨.accel, (readGyro 1 4 5 6).bytes 3 6⟩] := by
    decide +kernel
  obtain ⟨s, hs, hcopied⟩ := Option.map_eq_some_iff.mp hrun
  obtain ⟨r, hkind, hbytes⟩ := h s (Steps.moves_of_run hs)
    ⟨.accel, (readGyro 1 4 5 6).bytes 3 6⟩ (by simp [hcopied])
  obtain rfl : readGyro 1 4 5 6 = r := eq_of_bytes hbytes
  cases hkind

/-- Noise is harmless, whatever else happens. -/
def System.Quiet (s : System) (e : Event) : Prop :=
  ∀ place b, e = .noise place b → s.Harmless place b

/-- The call of a kind that began in `s` goes on, or has ended; it has copied a reply to a command
of the kind `first` then, or nothing. -/
def Ongoing (kind first : Kind) (s t : System) : Prop :=
  (t.phase.kind? = some kind ∧ t.Heads first ∧ t.copied = s.copied) ∨
    (t.phase = .idle ∧ (t.copied = s.copied ∨
      ∃ r : Reply, r.kind = first ∧ t.copied = s.copied ++ [⟨kind, r.bytes 3 6⟩]))

/-- What a step of a call that nothing disturbs keeps. -/
theorem Ongoing.step {kind first : Kind} {s t u : System} (hsound : Sound t)
    (h : Ongoing kind first s t) {e : Event} (hsteady : t.Steady e) (hstep : t.step e = some u) :
    Ongoing kind first s u := by
  obtain ⟨hkind, hheads, hcopied⟩ | ⟨hidle, hcopied⟩ := h
  · have hphase : t.phase ≠ .idle := fun hidle => by rw [hidle] at hkind; cases hkind
    obtain ⟨hsame, hheads', hcopied'⟩ | ⟨hidle, hcopied'⟩ :=
      Heads.step hsound hheads hphase hsteady hstep
    · exact .inl ⟨hsame.trans hkind, hheads', hcopied'.trans hcopied⟩
    · refine .inr ⟨hidle, hcopied'.imp (·.trans hcopied) ?_⟩
      rintro ⟨kind', r, hkind', hr, hcopied'⟩
      rw [hkind] at hkind'
      obtain rfl := Option.some.inj hkind'
      rw [hcopied] at hcopied'
      exact ⟨r, hr, hcopied'⟩
  · have hcall : ∀ kind', e ≠ .call kind' := by
      rintro kind' rfl
      exact hsteady
    obtain ⟨hidle', hcopied'⟩ := step_idle hidle hcall hstep
    rw [← hcopied'] at hcopied
    exact .inr ⟨hidle', hcopied⟩

/-- A call that nothing disturbs copies a reply to its own command exactly when it is its turn: the
first reply that was outstanding when it was called, if there was one, is of its kind. -/
theorem ownReply_iff_first {s t u : System} {kind : Kind} {c : Copied}
    (h : Relation.ReflTransGen (Steps.Moves System.step System.Quiet) .init s)
    (hcall : s.step (.call kind) = some t) (hpassed : Passed 0 (restOf s.last))
    (hrun : Relation.ReflTransGen (Steps.Moves System.step System.Steady) t u)
    (hcopied : u.copied = s.copied ++ [c]) :
    c.OwnReply ↔ ∀ first ∈ s.outstanding.head?, first = kind := by
  have hs : Sound s := Steps.invariant_of_moves (I := Sound)
    (fun _ _ _ hs hquiet hstep => hs.step hquiet hstep) sound_init h
  obtain ⟨hidle, rfl⟩ := step_call hcall
  obtain ⟨first, hfirst⟩ : ∃ first, s.outstanding.head?.getD kind = first := ⟨_, rfl⟩
  have hinv : Sound u ∧ Ongoing kind first s u := by
    refine Steps.invariant_of_moves (I := fun v => Sound v ∧ Ongoing kind first s v)
      (fun v e w hv hsteady hstep => ⟨hv.1.step ?_ hstep, hv.2.step hv.1 hsteady hstep⟩)
      ⟨hs.writeChar kind true, .inl ⟨rfl, heads_writeChar hpassed hfirst true, rfl⟩⟩ hrun
    rintro place b rfl
    exact hsteady
  -- the call has ended, since its six bytes are copied
  have hmore : u.copied ≠ s.copied := fun heq => by simp [heq] at hcopied
  obtain ⟨r, hr, hcopied'⟩ : ∃ r : Reply, r.kind = first ∧
      u.copied = s.copied ++ [⟨kind, r.bytes 3 6⟩] := by
    obtain ⟨-, ⟨-, -, hsame⟩ | ⟨-, hsame | hone⟩⟩ := hinv
    · exact absurd hsame hmore
    · exact absurd hsame hmore
    · exact hone
  obtain rfl : c = ⟨kind, r.bytes 3 6⟩ := by
    have heq := hcopied.symm.trans hcopied'
    simpa using heq
  -- with nothing outstanding, the call's own command is the first to be answered
  have hturn : (∀ first ∈ s.outstanding.head?, first = kind) ↔ first = kind := by
    rw [← hfirst]
    cases s.outstanding.head? <;> simp
  rw [hturn]
  constructor
  · rintro ⟨r', hkind, hbytes⟩
    obtain rfl := eq_of_bytes hbytes
    exact hr.symm.trans hkind
  · rintro rfl
    exact ⟨r, hr, rfl⟩

/-- The two bytes of a number give it back. -/
theorem word_bytes (n : UInt16) :
    n.toUInt8.toUInt16 ||| (n >>> 8).toUInt8.toUInt16 <<< 8 = n := by
  have hlt : n.toNat < 65536 := n.toNat_lt
  have hlow : n.toUInt8.toUInt16.toNat = n.toNat % 256 := by simp
  have hhigh : ((n >>> 8).toUInt8.toUInt16 <<< 8).toNat = (n.toNat / 256) <<< 8 := by
    simp only [UInt16.toNat_shiftLeft, UInt8.toNat_toUInt16, UInt16.toNat_toUInt8,
      UInt16.toNat_shiftRight, UInt16.reduceToNat, Nat.reduceMod, Nat.shiftRight_eq_div_pow,
      Nat.shiftLeft_eq]
    omega
  -- the low byte lies below the high one, so that joining them is adding them
  apply UInt16.toNat_inj.mp
  rw [UInt16.toNat_or, hlow, hhigh, Nat.or_comm,
    ← Nat.shiftLeft_add_eq_or_of_lt (Nat.mod_lt _ (by decide : 0 < 2 ^ 8)), Nat.shiftLeft_eq]
  omega

/-- A call that has copied a reply returns the readings in it. -/
theorem outputs_of_ownReply {kind : Kind} (r : Reply) :
    (⟨kind, r.bytes 3 6⟩ : Copied).outputs = [r.x, r.y, r.z] := by
  have hvalues : (r.bytes 3 6).map LinkByte.value = bytesOf r.x ++ bytesOf r.y ++ bytesOf r.z := rfl
  simp only [Copied.outputs, hvalues, bytesOf, List.cons_append, List.nil_append,
    List.getD_cons_zero, List.getD_cons_succ, word_bytes]

end Guillemot.Attitude
