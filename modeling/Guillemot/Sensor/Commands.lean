import Guillemot.Library.Scanner
import Guillemot.Sensor.Line

/-!
# Commands for the sensor board

The callbacks of `SubSensorController.cpp` write a packet of five bytes for each command, and `loop`
of `SubSensorBoard.ino` takes at most one packet off its serial buffer: it reads bytes away until
there is a start byte, and then five bytes if there are so many, whether they are a packet or not.

Bytes may arrive before the loop looks for a start byte, and before it looks whether there are five
bytes; of the latter there are fewer than five if the loop is `Swift`. Then what the board does is a
matter of the bytes alone, not of the pieces in which they arrive: commands are carried out as they
were sent, each once (`run_carries`), and behind any other bytes at most one command is lost
(`run_resyncs`). Whatever arrives, the pins of the torpedoes are low behind each loop (`run_safe`).
-/

namespace Guillemot.Sensor

/-! ## The controller -/

/-- `T`, which marks a command for a torpedo. -/
def torpedoByte : UInt8 := 0x54

/-- `D`, which marks a command for a dropper. -/
def dropperByte : UInt8 := 0x44

/-- `'0'`. -/
def zeroByte : UInt8 := 0x30

/-- A message for the board, on `Torpedo_Launch` or `Dropper_Activate`. -/
inductive Command where
  | torpedo (data : UInt8)
  | dropper (data : List UInt8)
deriving DecidableEq, Repr

/-- The bytes that `torpedoCallback` and `dropperCallback` write. -/
def Command.bytes : Command → List UInt8
  | .torpedo data => [startByte, torpedoByte, data + zeroByte, zeroByte, endByte]
  | .dropper (side :: state :: _) =>
    [startByte, dropperByte, side + zeroByte, state + zeroByte, endByte]
  | .dropper _ => []

/-! ## The board -/

/-- `PACKET_SIZE`. -/
def packetSize : ℕ := 5

/-- `numberOfDroppers`. -/
def numberOfDroppers : UInt8 := 2

/-- `numberOfTorpedos`. -/
def numberOfTorpedos : UInt8 := 2

/-- `dropperLeftPin`. -/
def dropperLeftPin : ℕ := 2

/-- `torpedoLeftPin`. -/
def torpedoLeftPin : ℕ := 7

/-- `motorKilledPin`. -/
def motorKilledPin : ℕ := 12

/-- A call of `digitalWrite`. -/
structure DigitalWrite where
  pin : ℕ
  high : Bool
deriving DecidableEq, Repr

/-- The serial buffer, and the calls of `digitalWrite` so far. Bytes that the serial buffer has no
room for are dropped when they come in: they have not arrived. -/
structure Board where
  serial : List UInt8
  writes : List DigitalWrite

/-- `launchTorpedo`. -/
def launchTorpedo (torpedo : UInt8) : List DigitalWrite :=
  if torpedo < numberOfTorpedos then
    [⟨torpedoLeftPin + torpedo.toNat, true⟩, ⟨torpedoLeftPin + torpedo.toNat, false⟩]
  else []

/-- `setDropperState`. -/
def setDropperState (dropper state : UInt8) : List DigitalWrite :=
  if dropper < numberOfDroppers then [⟨dropperLeftPin + dropper.toNat, state ≠ 0⟩] else []

/-- What `loop` does with the bytes that it read into `packetBuf`. -/
def execute (packetBuf : List UInt8) : List DigitalWrite :=
  if packetBuf.getD 0 0 = startByte ∧ packetBuf.getD (packetSize - 1) 0 = endByte then
    if packetBuf.getD 1 0 = torpedoByte then launchTorpedo (packetBuf.getD 2 0 - zeroByte)
    else if packetBuf.getD 1 0 = dropperByte then
      setDropperState (packetBuf.getD 2 0 - zeroByte) (packetBuf.getD 3 0 - zeroByte)
    else []
  else []

/-- The bytes that arrive in the serial buffer during a loop: until a start byte is found, and until
the number of the bytes is looked at. -/
structure Arrivals where
  first : List UInt8
  second : List UInt8

namespace Board

/-- `setup`, with an empty serial buffer. -/
def setup : Board where
  serial := []
  writes :=
    [⟨motorKilledPin, true⟩, ⟨torpedoLeftPin, false⟩, ⟨torpedoLeftPin + 1, false⟩]

/-- The part of `loop` that reads from the serial port, with the five bytes that it reads, if it
does. -/
def loop (b : Board) (a : Arrivals) : List (List UInt8) × Board :=
  let serial := b.serial ++ a.first
  if serial = [] then ([], { b with serial := a.second })
  else
    let serial := serial.dropWhile (· ≠ startByte) ++ a.second
    if packetSize ≤ serial.length then
      let packetBuf := serial.take packetSize
      ([packetBuf], ⟨serial.drop packetSize, b.writes ++ execute packetBuf⟩)
    else ([], { b with serial })

/-- Some loops, one after the other: what was read, and the board at the end. -/
def run : List Arrivals → Board → List (List UInt8) × Board
  | [], b => ([], b)
  | a :: arrivals, b =>
    let (read, b) := b.loop a
    let (read', b) := run arrivals b
    (read ++ read', b)

end Board

/-- The level of a pin: that of the last call for it. -/
def level (writes : List DigitalWrite) (pin : ℕ) : Option Bool :=
  (writes.reverse.find? (·.pin = pin)).map (·.high)

/-- The bytes that arrive during some loops. -/
def streamOf (arrivals : List Arrivals) : List UInt8 :=
  arrivals.flatMap fun a => a.first ++ a.second

/-- No packet arrives as a whole while a loop goes from one look to the next. -/
def Swift (arrivals : List Arrivals) : Prop := ∀ a ∈ arrivals, a.second.length < packetSize

instance (arrivals : List Arrivals) : Decidable (Swift arrivals) :=
  inferInstanceAs (Decidable (∀ a ∈ arrivals, a.second.length < packetSize))

/-- Loops during which nothing arrives. -/
def quiet (n : ℕ) : List Arrivals := List.replicate n ⟨[], []⟩

variable {xs ys zs : List UInt8} {es : List (List UInt8)} {b : Board} {n : ℕ}

/-! ## What becomes of the bytes -/

/-- What becomes of the front of the bytes: a byte that is no start byte is read away, and a start
byte is read into `packetBuf` with the four bytes behind it. -/
def front : List UInt8 → Option (List (List UInt8) × ℕ)
  | [] => none
  | x :: xs =>
    if x ≠ startByte then some ([], 1)
    else if packetSize ≤ (x :: xs).length then some ([(x :: xs).take packetSize], packetSize)
    else none

/-- The board as a scanner of the bytes. -/
def scanner : Scanner UInt8 (List UInt8) where
  next := front
  bounds := by
    intro xs es n h
    cases xs with
    | nil => cases h
    | cons x xs =>
      rw [front] at h
      split_ifs at h with hskip hlong
      · obtain ⟨-, rfl⟩ := Prod.mk.inj (Option.some.inj h)
        exact ⟨Nat.one_pos, Nat.succ_le_succ (Nat.zero_le _)⟩
      · obtain ⟨-, rfl⟩ := Prod.mk.inj (Option.some.inj h)
        exact ⟨Nat.succ_pos 4, hlong⟩
  mono := by
    intro xs es n h ys
    cases xs with
    | nil => cases h
    | cons x xs =>
      rw [front] at h
      rw [List.cons_append, front]
      split_ifs at h with hskip hlong
      · rw [if_pos hskip]
        exact h
      · have hlonger : packetSize ≤ (x :: (xs ++ ys)).length := by
          rw [List.length_cons, List.length_append]
          rw [List.length_cons] at hlong
          omega
        have htake : (x :: (xs ++ ys)).take packetSize = (x :: xs).take packetSize := by
          rw [← List.cons_append, List.take_append_of_le_length hlong]
        rw [if_neg hskip, if_pos hlonger, htake]
        exact h

/-- What is taken is longer than the list of what is read. -/
theorem length_front_le (h : scanner.next xs = some (es, n)) : es.length ≤ n := by
  have hfront : front xs = some (es, n) := h
  cases xs with
  | nil => cases hfront
  | cons x xs =>
    rw [front] at hfront
    split_ifs at hfront
    · obtain ⟨rfl, rfl⟩ := Prod.mk.inj (Option.some.inj hfront)
      exact Nat.zero_le 1
    · obtain ⟨rfl, rfl⟩ := Prod.mk.inj (Option.some.inj hfront)
      exact Nat.succ_le_succ (Nat.zero_le 4)

/-- Bytes in front of a start byte are read away. -/
theorem scan_skip (h : startByte ∉ zs) (ys : List UInt8) :
    scanner.scan (zs ++ ys) = scanner.scan ys := by
  refine Scanner.scan_skip (fun z hz ys => ?_) ys
  have hne : z ≠ startByte := fun heq => h (heq ▸ hz)
  exact if_pos hne

/-- Five bytes with a start byte in front are read. -/
theorem next_of_start (hlong : 4 ≤ xs.length) :
    scanner.next (startByte :: xs) = some ([(startByte :: xs).take packetSize], packetSize) := by
  have hmany : packetSize ≤ (startByte :: xs).length := Nat.succ_le_succ hlong
  show front (startByte :: xs) = _
  rw [front, if_neg (not_not.mpr rfl), if_pos hmany]

/-- Where the board waits, there is nothing, or a start byte with less than four bytes behind it. -/
theorem eq_of_next_none (h : scanner.next xs = none) :
    xs = [] ∨ ∃ ys, xs = startByte :: ys ∧ ys.length < 4 := by
  cases xs with
  | nil => exact .inl rfl
  | cons x xs =>
    refine .inr ⟨xs, ?_⟩
    have hfront : front (x :: xs) = none := h
    rw [front] at hfront
    split_ifs at hfront with hskip hlong
    rw [not_not] at hskip
    rw [List.length_cons] at hlong
    exact ⟨congrArg (· :: xs) hskip, by unfold packetSize at hlong; omega⟩

/-- Bytes are read away until there is a start byte, if there is one. -/
theorem dropWhile_cases (xs : List UInt8) :
    (startByte ∉ xs ∧ xs.dropWhile (· ≠ startByte) = []) ∨
      ∃ zs ys, xs = zs ++ startByte :: ys ∧ startByte ∉ zs ∧
        xs.dropWhile (· ≠ startByte) = startByte :: ys := by
  induction xs with
  | nil => exact .inl ⟨List.not_mem_nil, rfl⟩
  | cons x xs ih =>
    by_cases hx : x = startByte
    · subst hx
      exact .inr ⟨[], xs, rfl, List.not_mem_nil, rfl⟩
    · have hdrop : (x :: xs).dropWhile (· ≠ startByte) = xs.dropWhile (· ≠ startByte) :=
        List.dropWhile_cons_of_pos (decide_eq_true hx)
      rw [hdrop]
      rcases ih with ⟨hnone, heq⟩ | ⟨zs, ys, rfl, hzs, heq⟩
      · refine .inl ⟨?_, heq⟩
        rw [List.mem_cons, not_or]
        exact ⟨Ne.symm hx, hnone⟩
      · refine .inr ⟨x :: zs, ys, rfl, ?_, heq⟩
        rw [List.mem_cons, not_or]
        exact ⟨Ne.symm hx, hzs⟩

/-- What a loop does, in terms of the scanner: what it reads comes first. -/
theorem scan_loop (a : Arrivals) (hswift : a.second.length < packetSize) :
    scanner.scan (b.serial ++ (a.first ++ a.second)) =
        ((b.loop a).1 ++ (scanner.scan (b.loop a).2.serial).1,
          (scanner.scan (b.loop a).2.serial).2) ∧
      (b.loop a).2.writes = b.writes ++ (b.loop a).1.flatMap execute := by
  rw [← List.append_assoc]
  unfold Board.loop
  dsimp only
  generalize b.serial ++ a.first = serial
  by_cases hnone : serial = []
  · subst hnone
    rw [if_pos rfl]
    exact ⟨rfl, (List.append_nil _).symm⟩
  · rw [if_neg hnone]
    rcases dropWhile_cases serial with ⟨hskip, hdrop⟩ | ⟨zs, ys, rfl, hskip, hdrop⟩
    · -- There is no start byte, and what arrives behind the look for it is too short.
      have hfew : ¬packetSize ≤ a.second.length := Nat.not_le.mpr hswift
      rw [hdrop, List.nil_append, if_neg hfew, scan_skip hskip]
      exact ⟨rfl, (List.append_nil _).symm⟩
    · rw [hdrop, List.append_assoc, scan_skip hskip]
      split_ifs with hlong
      · have hmany : 4 ≤ (ys ++ a.second).length := Nat.le_of_succ_le_succ hlong
        have hnext := Scanner.scan_of_next (next_of_start hmany)
        exact ⟨hnext, by rw [List.flatMap_singleton]⟩
      · exact ⟨rfl, (List.append_nil _).symm⟩

/-- A loop that reads nothing, while nothing arrives, leaves nothing that can be read. -/
theorem next_loop_quiet (h : (b.loop ⟨[], []⟩).1 = []) :
    scanner.next (b.loop ⟨[], []⟩).2.serial = none := by
  unfold Board.loop at h ⊢
  dsimp only at h ⊢
  rw [List.append_nil] at h ⊢
  by_cases hnone : b.serial = []
  · rw [if_pos hnone]
    rfl
  · rw [if_neg hnone] at h ⊢
    rw [List.append_nil] at h ⊢
    split_ifs at h ⊢ with hlong
    rcases dropWhile_cases b.serial with ⟨-, hdrop⟩ | ⟨zs, ys, -, -, hdrop⟩
    · rw [hdrop]
      rfl
    · rw [hdrop] at hlong ⊢
      show front (startByte :: ys) = none
      rw [front, if_neg (not_not.mpr rfl), if_neg hlong]

/-- A loop reads one packet at most. -/
theorem length_loop_le (b : Board) (a : Arrivals) : (b.loop a).1.length ≤ 1 := by
  unfold Board.loop
  dsimp only
  split_ifs <;> simp

/-! ## Runs -/

/-- What a run does, in terms of the scanner. -/
theorem scan_run (arrivals : List Arrivals) (hswift : Swift arrivals) (b : Board) :
    scanner.scan (b.serial ++ streamOf arrivals) =
        ((b.run arrivals).1 ++ (scanner.scan (b.run arrivals).2.serial).1,
          (scanner.scan (b.run arrivals).2.serial).2) ∧
      (b.run arrivals).2.writes = b.writes ++ (b.run arrivals).1.flatMap execute := by
  induction arrivals generalizing b with
  | nil =>
    rw [streamOf, List.flatMap_nil, List.append_nil]
    exact ⟨rfl, (List.append_nil _).symm⟩
  | cons a arrivals ih =>
    obtain ⟨ha, harrivals⟩ := List.forall_mem_cons.mp hswift
    obtain ⟨hone, hwrites⟩ := scan_loop (b := b) a ha
    obtain ⟨hrest, hwrites'⟩ := ih harrivals (b.loop a).2
    have hall := Scanner.scan_append_of hone (streamOf arrivals)
    rw [hrest, List.append_assoc, ← List.append_assoc (b.loop a).1] at hall
    refine ⟨hall, ?_⟩
    rw [Board.run, hwrites', hwrites, List.append_assoc, ← List.flatMap_append]

/-- Loops during which nothing arrives read what can be read, if there are enough of them. -/
theorem run_quiet (n : ℕ) (b : Board) (h : (scanner.scan b.serial).1.length ≤ n) :
    (b.run (quiet n)).1 = (scanner.scan b.serial).1 := by
  induction n generalizing b with
  | zero => exact (List.eq_nil_of_length_eq_zero (Nat.le_zero.mp h)).symm
  | succ n ih =>
    obtain ⟨hone, -⟩ := scan_loop (b := b) ⟨[], []⟩ (Nat.succ_pos 4)
    replace hone : scanner.scan b.serial = _ := (congrArg _ (List.append_nil _)).symm.trans hone
    have hrest : (scanner.scan (b.loop ⟨[], []⟩).2.serial).1.length ≤ n := by
      by_cases hread : (b.loop ⟨[], []⟩).1 = []
      · rw [Scanner.scan_of_none (next_loop_quiet hread)]
        exact Nat.zero_le n
      · rw [hone, List.length_append] at h
        have hpos := List.length_pos_of_ne_nil hread
        omega
    have hnext := ih (b.loop ⟨[], []⟩).2 hrest
    show (b.loop ⟨[], []⟩).1 ++ ((b.loop ⟨[], []⟩).2.run (quiet n)).1 = _
    rw [hnext, hone]

theorem run_append (arrivals arrivals' : List Arrivals) (b : Board) :
    b.run (arrivals ++ arrivals') =
      ((b.run arrivals).1 ++ ((b.run arrivals).2.run arrivals').1,
        ((b.run arrivals).2.run arrivals').2) := by
  induction arrivals generalizing b with
  | nil => rfl
  | cons a arrivals ih =>
    rw [List.cons_append, Board.run, Board.run]
    dsimp only
    rw [ih, List.append_assoc]

/-- Quiet loops are swift. -/
theorem Swift.quiet {arrivals : List Arrivals} (h : Swift arrivals) (n : ℕ) :
    Swift (arrivals ++ quiet n) := by
  intro a ha
  rcases List.mem_append.mp ha with hold | hnew
  · exact h a hold
  · rw [List.eq_of_mem_replicate hnew]
    exact Nat.succ_pos 4

/-- The board does what the scanner finds in the bytes, once there were enough quiet loops. -/
theorem writes_run {arrivals : List Arrivals} (hswift : Swift arrivals)
    (hn : (scanner.scan (streamOf arrivals)).1.length ≤ n) :
    (Board.setup.run (arrivals ++ quiet n)).2.writes =
      Board.setup.writes ++ (scanner.scan (streamOf arrivals)).1.flatMap execute := by
  obtain ⟨hscan, -⟩ := scan_run arrivals hswift .setup
  obtain ⟨-, hwrites⟩ := scan_run (arrivals ++ quiet n) (hswift.quiet n) .setup
  replace hscan : scanner.scan (streamOf arrivals) = _ := hscan
  have hrest : (scanner.scan (Board.setup.run arrivals).2.serial).1.length ≤ n := by
    rw [hscan, List.length_append] at hn
    omega
  rw [hwrites, run_append, run_quiet n _ hrest, hscan]

/-! ## Commands -/

/-- What a command does on the board. -/
def Command.effect : Command → List DigitalWrite
  | .torpedo data => launchTorpedo data
  | .dropper (side :: state :: _) => setDropperState side state
  | .dropper _ => []

/-- The packets of a command: one, or none if there are no data for it. -/
def Command.packets (c : Command) : List (List UInt8) := if c.bytes = [] then [] else [c.bytes]

/-- A packet is carried out as the command that it was sent for. -/
theorem execute_packets (c : Command) : c.packets.flatMap execute = c.effect := by
  have hback (x : UInt8) : x + zeroByte - zeroByte = x := UInt8.add_sub_cancel x zeroByte
  match c with
  | .torpedo data =>
    show launchTorpedo (data + zeroByte - zeroByte) ++ [] = launchTorpedo data
    rw [hback, List.append_nil]
  | .dropper (side :: state :: _) =>
    show setDropperState (side + zeroByte - zeroByte) (state + zeroByte - zeroByte) ++ [] =
      setDropperState side state
    rw [hback, hback, List.append_nil]
  | .dropper [] => rfl
  | .dropper [_] => rfl

/-- The packet of a command is read as a whole. -/
theorem scan_command (c : Command) (ys : List UInt8) :
    scanner.scan (c.bytes ++ ys) = (c.packets ++ (scanner.scan ys).1, (scanner.scan ys).2) := by
  have hblock {p : List UInt8} (hp : p.length = 4) :
      scanner.scan (startByte :: p ++ ys) =
        ([startByte :: p] ++ (scanner.scan ys).1, (scanner.scan ys).2) := by
    have hlen : (startByte :: p).length = packetSize := congrArg Nat.succ hp
    have hnext : scanner.next (startByte :: p) = _ := next_of_start (Nat.le_of_eq hp.symm)
    rw [← hlen, List.take_length] at hnext
    exact Scanner.scan_cons_block hnext ys
  match c with
  | .torpedo _ => exact hblock rfl
  | .dropper (_ :: _ :: _) => exact hblock rfl
  | .dropper [] => rfl
  | .dropper [_] => rfl

/-- The packets of some commands are read one by one. -/
theorem scan_commands (commands : List Command) (ys : List UInt8) :
    scanner.scan (commands.flatMap Command.bytes ++ ys) =
      (commands.flatMap Command.packets ++ (scanner.scan ys).1, (scanner.scan ys).2) := by
  induction commands with
  | nil => rfl
  | cons c commands ih =>
    rw [List.flatMap_cons, List.append_assoc, scan_command, ih, List.flatMap_cons,
      List.append_assoc]

theorem execute_flatMap (commands : List Command) :
    (commands.flatMap Command.packets).flatMap execute = commands.flatMap Command.effect := by
  rw [List.flatMap_assoc]
  exact List.flatMap_congr fun c _ => execute_packets c

/-- A command that has a packet, with a start byte only in front. -/
def Command.Plain (c : Command) : Prop :=
  ∃ p, c.bytes = startByte :: p ∧ p.length = 4 ∧ startByte ∉ p

/-- Whatever came before a plain command, nothing is left to be read behind it. -/
theorem scan_plain {c : Command} (hplain : c.Plain) (others : List UInt8) :
    (scanner.scan (others ++ c.bytes)).2 = [] := by
  have hwait := Scanner.next_scan_eq_none (s := scanner) others
  rw [Scanner.scan_append]
  revert hwait
  generalize (scanner.scan others).2 = r
  intro hwait
  show (scanner.scan (r ++ c.bytes)).2 = []
  rcases eq_of_next_none hwait with rfl | ⟨ys, rfl, hshort⟩
  · have hscan := scan_command c []
    rw [List.append_nil] at hscan
    rw [List.nil_append, hscan]
    rfl
  · -- The five bytes that are read end in the command, and the others of it are read away.
    obtain ⟨p, hbytes, hlen, hno⟩ := hplain
    have hlong : 4 ≤ (ys ++ startByte :: p).length := by
      rw [List.length_append, List.length_cons]
      omega
    have hdrop : (startByte :: (ys ++ startByte :: p)).drop packetSize =
        p.drop (3 - ys.length) := by
      have hthree : 4 - ys.length = (3 - ys.length) + 1 := by omega
      show (ys ++ startByte :: p).drop 4 = _
      rw [List.drop_append, List.drop_of_length_le (Nat.le_of_lt hshort), List.nil_append, hthree,
        List.drop_succ_cons]
    have hskip : startByte ∉ p.drop (3 - ys.length) := fun hmem => hno (List.mem_of_mem_drop hmem)
    have hrest := scan_skip hskip []
    rw [List.append_nil] at hrest
    rw [hbytes, List.cons_append, Scanner.scan_of_next (next_of_start hlong), hdrop, hrest]
    rfl

section Programs

variable {arrivals : List Arrivals}

/-- Commands whose bytes arrive, in any pieces, are carried out in their order, each once. -/
theorem run_carries (commands : List Command) (hswift : Swift arrivals)
    (hstream : streamOf arrivals = commands.flatMap Command.bytes)
    (hn : commands.length ≤ n) :
    (Board.setup.run (arrivals ++ quiet n)).2.writes =
      Board.setup.writes ++ commands.flatMap Command.effect := by
  have hscan := scan_commands commands []
  rw [List.append_nil, ← hstream] at hscan
  replace hscan : (scanner.scan (streamOf arrivals)).1 = commands.flatMap Command.packets :=
    (congrArg Prod.fst hscan).trans (List.append_nil _)
  have hcount : (commands.flatMap Command.packets).length ≤ commands.length := by
    clear hscan hn hstream
    induction commands with
    | nil => exact Nat.le_refl 0
    | cons c commands ih =>
      have hone : c.packets.length ≤ 1 := by
        unfold Command.packets
        split_ifs
        · exact Nat.zero_le 1
        · exact Nat.le_refl 1
      rw [List.flatMap_cons, List.length_append, List.length_cons]
      omega
  have hrun := writes_run (n := n) hswift (by rw [hscan]; omega)
  rw [hrun, hscan, execute_flatMap]

/-- Between commands that were written, some bytes may be lost or written in part: then at most the
plain command behind them is lost, too. What came before and what comes behind it is carried out. -/
theorem run_resyncs (done : List Command) (broken : List UInt8) (command : Command)
    (commands : List Command) (hswift : Swift arrivals) (hplain : command.Plain)
    (hstream : streamOf arrivals = done.flatMap Command.bytes ++
      (broken ++ command.bytes ++ commands.flatMap Command.bytes))
    (hn : (streamOf arrivals).length ≤ n) :
    (Board.setup.run (arrivals ++ quiet n)).2.writes =
      Board.setup.writes ++ done.flatMap Command.effect ++
        (scanner.scan (broken ++ command.bytes)).1.flatMap execute ++
        commands.flatMap Command.effect := by
  have hrest := scan_commands commands []
  rw [List.append_nil] at hrest
  have hbroken := Scanner.scan_append (s := scanner) (broken ++ command.bytes)
    (commands.flatMap Command.bytes)
  rw [scan_plain hplain, List.nil_append, hrest] at hbroken
  have hscan := scan_commands done
    (broken ++ command.bytes ++ commands.flatMap Command.bytes)
  rw [hbroken, ← hstream] at hscan
  replace hscan : (scanner.scan (streamOf arrivals)).1 = done.flatMap Command.packets ++
      ((scanner.scan (broken ++ command.bytes)).1 ++ (commands.flatMap Command.packets ++ [])) :=
    congrArg Prod.fst hscan
  have hcount := Scanner.length_scan_le (s := scanner) length_front_le (streamOf arrivals)
  have hrun := writes_run (n := n) hswift (Nat.le_trans hcount hn)
  rw [hrun, hscan, List.append_nil, List.flatMap_append, List.flatMap_append, execute_flatMap,
    execute_flatMap]
  simp only [List.append_assoc]

end Programs

/-- Two commands that arrive in pieces are carried out. -/
theorem run_carries_two :
    (Board.setup.run ([⟨[0x53, 0x54], [0x31]⟩, ⟨[0x30, 0x45, 0x53], []⟩,
      ⟨[0x44, 0x30, 0x31, 0x45], []⟩] ++ quiet 2)).2.writes =
      [⟨12, true⟩, ⟨7, false⟩, ⟨8, false⟩, ⟨8, true⟩, ⟨8, false⟩, ⟨2, true⟩] :=
  run_carries [.torpedo 1, .dropper [0, 1]] (by decide) rfl (Nat.le_refl 2)

/-- The packet of the first command is written in part, and takes the next command with it. -/
theorem run_resyncs_one :
    (Board.setup.run ([⟨[0x53, 0x54, 0x53, 0x54, 0x31, 0x30, 0x45, 0x53, 0x44, 0x30, 0x31, 0x45],
      []⟩] ++ quiet 12)).2.writes =
      [⟨12, true⟩, ⟨7, false⟩, ⟨8, false⟩, ⟨2, true⟩] :=
  run_resyncs [] [0x53, 0x54] (.torpedo 1) [.dropper [0, 1]] (by decide)
    ⟨_, rfl, rfl, by decide⟩ rfl (Nat.le_refl 12)

/-! ## Safety -/

/-- The bytes are a packet that launches this torpedo. -/
def launches (torpedo : UInt8) (p : List UInt8) : Bool :=
  p.getD 0 0 = startByte ∧ p.getD 1 0 = torpedoByte ∧ p.getD 2 0 = torpedo + zeroByte ∧
    p.getD (packetSize - 1) 0 = endByte

/-- What a loop reads is a slice of the bytes. -/
theorem slices_loop {s : List UInt8} {ps : List (List UInt8)} (h : Slices s ps b.serial)
    (a : Arrivals) :
    Slices (s ++ (a.first ++ a.second)) (ps ++ (b.loop a).1) (b.loop a).2.serial := by
  have harrived := (h.append a.first).append a.second
  rw [List.append_assoc s] at harrived
  unfold Board.loop
  dsimp only
  revert harrived
  generalize b.serial ++ a.first = serial
  intro harrived
  by_cases hnone : serial = []
  · subst hnone
    rw [if_pos rfl, List.append_nil]
    exact harrived
  · rw [if_neg hnone]
    have hskip : Slices (s ++ (a.first ++ a.second)) ps
        (serial.dropWhile (· ≠ startByte) ++ a.second) := by
      rcases dropWhile_cases serial with ⟨-, hdrop⟩ | ⟨zs, ys, rfl, -, hdrop⟩
      · have hall := harrived.skip serial.length
        rw [List.drop_left] at hall
        rw [hdrop]
        exact hall
      · have hfront := harrived.skip zs.length
        rw [List.append_assoc, List.drop_left] at hfront
        rw [hdrop]
        exact hfront
    split_ifs
    · rw [← List.take_append_drop packetSize
        (serial.dropWhile (· ≠ startByte) ++ a.second)] at hskip
      exact hskip.take
    · rw [List.append_nil]
      exact hskip

/-- What a loop writes is what it read. -/
theorem writes_loop (b : Board) (a : Arrivals) :
    (b.loop a).2.writes = b.writes ++ (b.loop a).1.flatMap execute := by
  unfold Board.loop
  dsimp only
  split_ifs
  · exact (List.append_nil _).symm
  · rw [List.flatMap_singleton]
  · exact (List.append_nil _).symm

/-- A packet drives a pin of a torpedo high and low again, or writes a pin of a dropper, or does
nothing. -/
theorem execute_cases (p : List UInt8) :
    (∃ torpedo < numberOfTorpedos, launches torpedo p = true ∧
        execute p = [⟨torpedoLeftPin + torpedo.toNat, true⟩,
          ⟨torpedoLeftPin + torpedo.toNat, false⟩]) ∨
      (∀ torpedo < numberOfTorpedos, launches torpedo p = false) ∧
        ((∃ side < numberOfDroppers, ∃ high,
          execute p = [⟨dropperLeftPin + side.toNat, high⟩]) ∨ execute p = []) := by
  have hback (x y : UInt8) : x = y - zeroByte ↔ y = x + zeroByte := by
    constructor
    · rintro rfl
      exact (UInt8.sub_add_cancel y zeroByte).symm
    · rintro rfl
      exact (UInt8.add_sub_cancel x zeroByte).symm
  unfold execute
  split_ifs with hframe htorpedo hdropper
  · unfold launchTorpedo
    split_ifs with hlt
    · refine .inl ⟨_, hlt, ?_, rfl⟩
      exact decide_eq_true ⟨hframe.1, htorpedo, (hback _ _).mp rfl, hframe.2⟩
    · refine .inr ⟨fun torpedo ht => decide_eq_false fun h => ?_, .inr rfl⟩
      rw [← (hback _ _).mpr h.2.2.1] at hlt
      exact hlt ht
  · have hno (torpedo : UInt8) : launches torpedo p = false :=
      decide_eq_false fun h => htorpedo h.2.1
    unfold setDropperState
    split_ifs with hlt
    · exact .inr ⟨fun torpedo _ => hno torpedo, .inl ⟨_, hlt, _, rfl⟩⟩
    · exact .inr ⟨fun torpedo _ => hno torpedo, .inr rfl⟩
  · exact .inr ⟨fun torpedo _ => decide_eq_false fun h => htorpedo h.2.1, .inr rfl⟩
  · exact .inr ⟨fun torpedo _ => decide_eq_false fun h => hframe ⟨h.1, h.2.2.2⟩, .inr rfl⟩

/-- The pins that packets are for: those of the torpedoes and of the droppers. -/
def CommandPin (pin : ℕ) : Prop :=
  (∃ torpedo < numberOfTorpedos, pin = torpedoLeftPin + torpedo.toNat) ∨
    ∃ side < numberOfDroppers, pin = dropperLeftPin + side.toNat

/-- The calls of `digitalWrite`, those of `setup` and those for some packets, and what is said about
them. -/
structure Safe (ps : List (List UInt8)) (writes : List DigitalWrite) : Prop where
  low : ∀ torpedo < numberOfTorpedos, level writes (torpedoLeftPin + torpedo.toNat) = some false
  launched : ∀ torpedo < numberOfTorpedos,
    writes.count ⟨torpedoLeftPin + torpedo.toNat, true⟩ = ps.countP (launches torpedo)
  pins : ∃ later, writes = Board.setup.writes ++ later ∧ ∀ w ∈ later, CommandPin w.pin

/-- A call changes the level of its own pin only. -/
theorem level_concat (writes : List DigitalWrite) (w : DigitalWrite) (pin : ℕ) :
    level (writes ++ [w]) pin = if w.pin = pin then some w.high else level writes pin := by
  unfold level
  rw [List.reverse_append, List.reverse_singleton, List.singleton_append, List.find?_cons]
  by_cases hpin : w.pin = pin
  · rw [if_pos hpin, decide_eq_true hpin]
    rfl
  · rw [if_neg hpin, decide_eq_false hpin]

/-- A call is counted if it is the one that is looked for. -/
theorem count_concat (writes : List DigitalWrite) (w v : DigitalWrite) :
    (writes ++ [w]).count v = writes.count v + if w = v then 1 else 0 := by
  rw [List.count_append, List.count_singleton]
  simp only [beq_iff_eq]

/-- There are two of each. -/
theorem lt_two_cases {x : UInt8} (h : x < 2) : x = 0 ∨ x = 1 := by
  have hlt : x.toNat < 2 := h
  rcases Nat.lt_or_ge x.toNat 1 with hzero | hone
  · exact .inl (UInt8.toNat_inj.mp (Nat.lt_one_iff.mp hzero))
  · exact .inr (UInt8.toNat_inj.mp (Nat.le_antisymm (Nat.le_of_lt_succ hlt) hone))

/-- Calls for the pins of packets may follow. -/
theorem Safe.pins_append {ps : List (List UInt8)} {writes more : List DigitalWrite}
    (h : Safe ps writes) (hmore : ∀ w ∈ more, CommandPin w.pin) :
    ∃ later, writes ++ more = Board.setup.writes ++ later ∧ ∀ w ∈ later, CommandPin w.pin := by
  obtain ⟨later, rfl, hpins⟩ := h.pins
  refine ⟨later ++ more, List.append_assoc _ _ _, fun w hw => ?_⟩
  rcases List.mem_append.mp hw with hold | hnew
  · exact hpins w hold
  · exact hmore w hnew

theorem safe_setup : Safe [] Board.setup.writes := by
  refine ⟨fun torpedo ht => ?_, fun torpedo ht => ?_,
    [], (List.append_nil _).symm, List.forall_mem_nil _⟩
  · rcases lt_two_cases ht with rfl | rfl <;> rfl
  · rcases lt_two_cases ht with rfl | rfl <;> rfl

/-- A packet keeps the pins of the torpedoes low. -/
theorem Safe.concat {ps : List (List UInt8)} {writes : List DigitalWrite} (h : Safe ps writes)
    (p : List UInt8) : Safe (ps ++ [p]) (writes ++ execute p) := by
  rcases execute_cases p with ⟨t, ht, hlaunch, heq⟩ | ⟨hno, ⟨side, hside, high, heq⟩ | heq⟩
  · -- A launch: its pin is low at the end, the other one is as before.
    have hself {torpedo : UInt8} : torpedoLeftPin + t.toNat = torpedoLeftPin + torpedo.toNat ↔
        t = torpedo := by
      rw [Nat.add_left_cancel_iff, UInt8.toNat_inj]
    have hone (torpedo : UInt8) : launches torpedo p = true ↔ t = torpedo := by
      constructor
      · intro hlaunch'
        have hsame : t + zeroByte = torpedo + zeroByte :=
          (of_decide_eq_true hlaunch).2.2.1.symm.trans (of_decide_eq_true hlaunch').2.2.1
        exact add_right_cancel hsame
      · rintro rfl
        exact hlaunch
    have htwo : writes ++ execute p =
        writes ++ [⟨torpedoLeftPin + t.toNat, true⟩] ++ [⟨torpedoLeftPin + t.toNat, false⟩] := by
      rw [heq, List.append_assoc]
      rfl
    have hpins : ∀ w ∈ execute p, CommandPin w.pin := by
      rw [heq]
      intro w hw
      rcases List.mem_pair.mp hw with rfl | rfl <;> exact .inl ⟨t, ht, rfl⟩
    refine ⟨fun torpedo htorpedo => ?_, fun torpedo htorpedo => ?_, h.pins_append hpins⟩ <;>
      rw [htwo]
    · rw [level_concat, level_concat]
      split_ifs
      · rfl
      · exact h.low torpedo htorpedo
    · have hlow : ¬(⟨torpedoLeftPin + t.toNat, false⟩ : DigitalWrite) =
          ⟨torpedoLeftPin + torpedo.toNat, true⟩ :=
        fun heq => by cases congrArg DigitalWrite.high heq
      have hhigh : (⟨torpedoLeftPin + t.toNat, true⟩ : DigitalWrite) =
          ⟨torpedoLeftPin + torpedo.toNat, true⟩ ↔ launches torpedo p = true := by
        rw [hone, ← hself]
        exact ⟨congrArg DigitalWrite.pin, fun hpin => by rw [hpin]⟩
      rw [count_concat, count_concat, if_neg hlow, h.launched torpedo htorpedo, List.countP_append,
        List.countP_singleton]
      simp only [hhigh, Nat.add_zero]
  · have hother {t : UInt8} : dropperLeftPin + side.toNat ≠ torpedoLeftPin + t.toNat := by
      have hlt : side.toNat < 2 := hside
      unfold dropperLeftPin torpedoLeftPin
      omega
    have hpin : ∀ w ∈ [(⟨dropperLeftPin + side.toNat, high⟩ : DigitalWrite)], CommandPin w.pin :=
      List.forall_mem_singleton.mpr (.inr ⟨side, hside, rfl⟩)
    rw [heq]
    refine ⟨fun torpedo htorpedo => ?_, fun torpedo htorpedo => ?_, h.pins_append hpin⟩
    · rw [level_concat, if_neg hother]
      exact h.low torpedo htorpedo
    · have hne : ¬(⟨dropperLeftPin + side.toNat, high⟩ : DigitalWrite) =
          ⟨torpedoLeftPin + torpedo.toNat, true⟩ :=
        fun heq => hother (congrArg DigitalWrite.pin heq)
      rw [count_concat, if_neg hne, h.launched torpedo htorpedo, List.countP_append,
        List.countP_singleton, hno torpedo htorpedo]
      rfl
  · rw [heq, List.append_nil]
    refine ⟨h.low, fun torpedo ht => ?_, h.pins⟩
    rw [h.launched torpedo ht, List.countP_append, List.countP_singleton, hno torpedo ht]
    rfl

/-- Whatever arrives, in whatever pieces: behind each loop the pins of the torpedoes are low, no
other pins than those of the torpedoes and droppers are written after `setup`, and each launch has a
packet of its own among the bytes. -/
theorem run_safe (arrivals : List Arrivals) :
    (∃ rest, Slices (streamOf arrivals) (Board.setup.run arrivals).1 rest) ∧
      Safe (Board.setup.run arrivals).1 (Board.setup.run arrivals).2.writes := by
  have hkept : ∀ (b : Board) (s : List UInt8) (ps : List (List UInt8)), Slices s ps b.serial →
      Safe ps b.writes →
      (∃ rest, Slices (s ++ streamOf arrivals) (ps ++ (b.run arrivals).1) rest) ∧
        Safe (ps ++ (b.run arrivals).1) (b.run arrivals).2.writes := by
    induction arrivals with
    | nil =>
      intro b s ps hslices hsafe
      rw [streamOf, List.flatMap_nil, List.append_nil, Board.run, List.append_nil]
      exact ⟨⟨_, hslices⟩, hsafe⟩
    | cons a arrivals ih =>
      intro b s ps hslices hsafe
      have hloop : Safe (ps ++ (b.loop a).1) (b.loop a).2.writes := by
        rw [writes_loop]
        rcases hread : (b.loop a).1 with _ | ⟨p, _ | ⟨q, read⟩⟩
        · rw [List.flatMap_nil, List.append_nil, List.append_nil]
          exact hsafe
        · rw [List.flatMap_singleton]
          exact hsafe.concat p
        · have hle := length_loop_le b a
          rw [hread] at hle
          exact absurd hle (by simp)
      have hrest := ih _ _ _ (slices_loop hslices a) hloop
      rw [List.append_assoc s, List.append_assoc ps] at hrest
      exact hrest
  exact hkept .setup [] [] .whole safe_setup

end Guillemot.Sensor
