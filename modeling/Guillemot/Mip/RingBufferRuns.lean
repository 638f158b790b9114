import Guillemot.Mip.RingBuffer
import Mathlib.Data.List.Forall2
import Mathlib.Data.List.GetD
import Mathlib.Order.Basic

/-!
# The ring buffer as a queue

The calls of the functions of `ring_buffer.c` on one buffer, one after the other. What goes through
the buffer is its `Traffic`: the entries that were taken in, those that came out again, and the
number of those that were refused because the buffer was full.

Whatever the calls, the entries come out in the order in which they were taken in, none twice and
none left out, and the statistics count them (`run_accounts`). The bytes behind the buffer stay.
-/

namespace Guillemot.Mip

open Circular

/-- A call of a function that changes the buffer. `claim` takes the pointer to the next entry,
fills it and counts it. -/
inductive Call where
  | write (entry : List UInt8)
  | writeMulti (entryBuff : ℕ → UInt8) (numEntries : ℕ)
  | claim (entry : List UInt8)
  | read
  | readMulti (entryBuffSize numRequested : ℕ)
  | consumeEntries (numEntries : ℕ)
  | removeFirstElement
  | flush

/-- The pointer of `claim` is used for one entry. -/
def Call.Fits (size : ℕ) : Call → Prop
  | .claim entry => entry.length ≤ size
  | _ => True

/-- What went through a buffer. The entries that `flush` drops are among those that left it. -/
structure Traffic where
  entered : List (List UInt8) := []
  left : List (List UInt8) := []
  flushed : ℕ := 0
  refused : ℕ := 0

/-- Traffic, and more of it. -/
def Traffic.append (t u : Traffic) : Traffic :=
  ⟨t.entered ++ u.entered, t.left ++ u.left, t.flushed + u.flushed, t.refused + u.refused⟩

namespace RingBuffer

variable (b : RingBuffer)

/-- Bytes are written through a pointer into the buffer. -/
def store (ptr : ℕ) (bytes : List UInt8) : RingBuffer :=
  { b with
    entries := fun a =>
      if ptr ≤ a ∧ a < ptr + bytes.length then bytes.getD (a - ptr) 0 else b.entries a }

/-- `ring_buffer_get_available_element_ptr`, the bytes, and `ring_buffer_increment_count`. -/
def claim (entry : List UInt8) : Code × RingBuffer :=
  match b.getAvailableElementPtr with
  | none => (.error, b)
  | some ptr => (b.store ptr entry).incrementCount

/-- One call, with its traffic: what the function copies out, or what it drops. -/
def act : Call → Traffic × RingBuffer
  | .write entry =>
    match b.write entry with
    | (.ok, b') => ({ entered := if entry = [] then [] else [entry] }, b')
    | (.full, b') => ({ refused := 1 }, b')
    | (_, b') => ({}, b')
  | .writeMulti entryBuff numEntries =>
    let (_, numWritten, b') := b.writeMulti entryBuff numEntries
    ({ entered := (entriesOf b.entrySize entryBuff numEntries).take numWritten
       refused := numEntries - numWritten }, b')
  | .claim entry =>
    match b.claim entry with
    | (.ok, b') => ({ entered := [entry] }, b')
    | (_, b') => ({}, b')
  | .read =>
    match b.read with
    | (.ok, entry, b') => ({ left := [entry] }, b')
    | (_, _, b') => ({}, b')
  | .readMulti entryBuffSize numRequested =>
    let (_, entries, b') := b.readMulti entryBuffSize numRequested
    ({ left := entries }, b')
  | .consumeEntries numEntries =>
    ({ left := b.contents.take numEntries }, (b.consumeEntries numEntries).2)
  | .removeFirstElement => ({ left := b.contents.take 1 }, b.removeFirstElement.2)
  | .flush => ({ left := b.contents, flushed := b.contents.length }, b.flush.2)

/-- The calls of a run, one after the other. -/
def run : List Call → RingBuffer → Traffic × RingBuffer
  | [], b => ({}, b)
  | call :: calls, b =>
    let (t, b) := b.act call
    let (u, b) := run calls b
    (t.append u, b)

/-- The buffer `b` after the traffic `t` on the buffer `b₀`, which was empty. -/
structure Accounts (b₀ : RingBuffer) (t : Traffic) (b : RingBuffer) : Prop where
  valid : b.Valid
  order : List.Forall₂ (· <+: ·) t.entered (t.left ++ b.contents)
  written : b.totalEntriesWritten = u32 t.entered.length
  read : u32 (b.totalEntriesRead + t.flushed) = u32 t.left.length
  overruns : b.totalOverruns = u32 t.refused
  maxEntries : b.maxEntries = b₀.maxEntries
  entrySize : b.entrySize = b₀.entrySize
  outside : ∀ a, b₀.maxEntries * b₀.entrySize ≤ a → b.entries a = b₀.entries a

variable {b} {b₀ : RingBuffer} {t : Traffic} {entry : List UInt8} {n : ℕ}

/-! ## Single entries -/

theorem Accounts.initStatic {m : ℕ → UInt8} {maxEntries entrySize : ℕ}
    (h2 : 2 * maxEntries ≤ 2 ^ 32) (hb : maxEntries * entrySize ≤ 2 ^ 32) :
    Accounts (initStatic m maxEntries entrySize) {} (initStatic m maxEntries entrySize) where
  valid := valid_initStatic h2 hb
  order := .nil
  written := rfl
  read := rfl
  overruns := rfl
  maxEntries := rfl
  entrySize := rfl
  outside := fun _ _ => rfl

/-- An entry is written. -/
theorem Accounts.fill_written (h : Accounts b₀ t b) (hroom : b.currentCount < b.maxEntries)
    (hlen : entry.length ≤ b.entrySize) :
    Accounts b₀ (t.append { entered := [entry] }) (b.fill entry).written where
  valid := h.valid.fill_written hroom
  order := by
    rw [h.valid.contents_fill_written hroom hlen]
    show List.Forall₂ _ (t.entered ++ [entry]) (t.left ++ [] ++ _)
    rw [List.append_nil, ← List.append_assoc]
    exact List.rel_append h.order (.cons (List.prefix_append _ _) .nil)
  written := by
    show u32 (b.totalEntriesWritten + 1) = u32 (t.entered ++ [entry]).length
    rw [h.written, u32_add, List.length_append, List.length_singleton]
  read := by
    show u32 (b.totalEntriesRead + (t.flushed + 0)) = u32 (t.left ++ []).length
    rw [Nat.add_zero, List.append_nil, h.read]
  overruns := h.overruns
  maxEntries := h.maxEntries
  entrySize := h.entrySize
  outside := fun a ha => by
    rw [← h.outside a ha]
    rw [← h.maxEntries, ← h.entrySize] at ha
    exact h.valid.fill_outside hroom hlen ha

/-- Some entries are taken off the front. -/
theorem Accounts.drop (h : Accounts b₀ t b) (hn : n ≤ b.currentCount) :
    Accounts b₀ (t.append { left := b.contents.take n })
      { b with
        position := wrap b.maxEntries (u32 (b.position + n))
        currentCount := b.currentCount - n
        totalEntriesRead := u32 (b.totalEntriesRead + n) } where
  valid := h.valid.drop hn
  order := by
    rw [h.valid.contents_drop hn]
    show List.Forall₂ _ (t.entered ++ []) (t.left ++ b.contents.take n ++ b.contents.drop n)
    rw [List.append_nil, List.append_assoc, List.take_append_drop]
    exact h.order
  written := by
    show b.totalEntriesWritten = u32 (t.entered ++ []).length
    rw [List.append_nil, h.written]
  read := by
    show u32 (u32 (b.totalEntriesRead + n) + (t.flushed + 0)) =
      u32 (t.left ++ b.contents.take n).length
    have hread := h.read
    have hlen : (b.contents.take n).length = n := by
      rw [List.length_take, length_contents, Nat.min_eq_left hn]
    calc u32 (u32 (b.totalEntriesRead + n) + (t.flushed + 0))
        = u32 (b.totalEntriesRead + t.flushed + n) := by
          rw [u32_add]
          congr 1
          omega
      _ = u32 (u32 (b.totalEntriesRead + t.flushed) + n) := (u32_add _ n).symm
      _ = u32 (t.left ++ b.contents.take n).length := by
          rw [hread, u32_add, List.length_append, hlen]
  overruns := h.overruns
  maxEntries := h.maxEntries
  entrySize := h.entrySize
  outside := h.outside

/-- Some entries are refused. -/
theorem Accounts.refuse (h : Accounts b₀ t b) (n : ℕ) :
    Accounts b₀ (t.append { refused := n })
      { b with totalOverruns := u32 (b.totalOverruns + n) } where
  valid := ⟨h.valid.ready, h.valid.twice, h.valid.bytes, h.valid.placed, h.valid.bounded⟩
  order := by
    show List.Forall₂ _ (t.entered ++ []) (t.left ++ [] ++ b.contents)
    rw [List.append_nil, List.append_nil]
    exact h.order
  written := by
    show b.totalEntriesWritten = u32 (t.entered ++ []).length
    rw [List.append_nil, h.written]
  read := by
    show u32 (b.totalEntriesRead + (t.flushed + 0)) = u32 (t.left ++ []).length
    rw [Nat.add_zero, List.append_nil, h.read]
  overruns := by
    show u32 (b.totalOverruns + n) = u32 (t.refused + n)
    rw [h.overruns, u32_add]
  maxEntries := h.maxEntries
  entrySize := h.entrySize
  outside := h.outside

@[simp] theorem Traffic.append_empty (t : Traffic) : t.append {} = t := by
  simp [Traffic.append]

@[simp] theorem Traffic.empty_append (t : Traffic) : Traffic.append {} t = t := by
  simp [Traffic.append]

theorem Traffic.append_assoc (t u v : Traffic) :
    (t.append u).append v = t.append (u.append v) := by
  simp [Traffic.append, Nat.add_assoc]

/-! ## The functions -/

theorem Accounts.act_write (h : Accounts b₀ t b) :
    Accounts b₀ (t.append (b.act (.write entry)).1) (b.act (.write entry)).2 := by
  rcases Nat.lt_or_ge b.currentCount b.maxEntries with hroom | hfull
  · have hfree := Nat.not_le.mpr hroom
    rcases eq_or_ne entry [] with rfl | hne
    · have hact : b.act (.write []) = ({}, b) := by simp [act, write, hfree]
      rw [hact, Traffic.append_empty]
      exact h
    · rcases Nat.lt_or_ge b.entrySize entry.length with hlong | hlen
      · have hact : b.act (.write entry) = ({}, b) := by simp [act, write, hfree, hne, hlong]
        rw [hact, Traffic.append_empty]
        exact h
      · have hact : b.act (.write entry) = ({ entered := [entry] }, (b.fill entry).written) := by
          simp [act, write, hfree, hne, Nat.not_lt.mpr hlen]
        rw [hact]
        exact h.fill_written hroom hlen
  · have hact : b.act (.write entry) =
        ({ refused := 1 }, { b with totalOverruns := u32 (b.totalOverruns + 1) }) := by
      simp [act, write, hfull]
    rw [hact]
    exact h.refuse 1

/-- The loop of `ring_buffer_write_multi`. The entries that it does not write are refused. -/
theorem Accounts.writeEntries (entries : List (List UInt8)) (h : Accounts b₀ t b)
    (hlen : ∀ e ∈ entries, e.length ≤ b.entrySize) :
    Accounts b₀
      (t.append
        { entered := entries.take (writeEntries entries b).2.1
          refused := entries.length - (writeEntries entries b).2.1 })
      (writeEntries entries b).2.2 := by
  induction entries generalizing t b with
  | nil => simpa [RingBuffer.writeEntries] using h
  | cons entry rest ih =>
    unfold RingBuffer.writeEntries
    rcases Nat.lt_or_ge b.currentCount b.maxEntries with hroom | hfull
    · rw [if_neg (by omega)]
      have hone := h.fill_written hroom (hlen entry List.mem_cons_self)
      have hrest := ih hone fun e he => hlen e (List.mem_cons_of_mem _ he)
      rw [Traffic.append_assoc] at hrest
      simpa [Traffic.append] using hrest
    · rw [if_pos hfull]
      simpa using h.refuse (rest.length + 1)

theorem length_of_mem_entriesOf {size : ℕ} {entryBuff : ℕ → UInt8}
    (h : entry ∈ entriesOf size entryBuff n) : entry.length = size := by
  obtain ⟨i, -, rfl⟩ := List.mem_map.mp h
  rw [List.length_map, List.length_range]

theorem Accounts.act_writeMulti (entryBuff : ℕ → UInt8) (n : ℕ) (h : Accounts b₀ t b) :
    Accounts b₀ (t.append (b.act (.writeMulti entryBuff n)).1)
      (b.act (.writeMulti entryBuff n)).2 := by
  have hloop := h.writeEntries (entriesOf b.entrySize entryBuff n) fun e he =>
    Nat.le_of_eq (length_of_mem_entriesOf he)
  have hcount : (entriesOf b.entrySize entryBuff n).length = n := by simp [entriesOf]
  rw [hcount] at hloop
  exact hloop

/-- Bytes that are written through the pointer are those of the next entry. -/
theorem Valid.store_eq (h : b.Valid) (hroom : b.currentCount < b.maxEntries)
    (hlen : entry.length ≤ b.entrySize) :
    b.store (u32 (b.writePos * b.entrySize)) entry = b.fill entry := by
  have hlt := h.writePos_lt hroom
  have hentries : (b.store (u32 (b.writePos * b.entrySize)) entry).entries =
      (b.fill entry).entries := by
    funext a
    show (if _ then _ else _) = fillFrom b.entrySize b.writePos 0 entry b.entries a
    rcases Nat.eq_zero_or_pos entry.length with hnil | hcons
    · obtain rfl := List.eq_nil_of_length_eq_zero hnil
      rw [if_neg (by rw [List.length_nil]; omega)]
      rfl
    · have hsmall := byte_lt (b := b) hlt (j := entry.length - 1) (by omega)
      have hbytes := h.bytes
      have hptr : u32 (b.writePos * b.entrySize) = b.writePos * b.entrySize :=
        u32_of_lt (by omega)
      rw [hptr]
      split_ifs with ha
      · obtain ⟨k, rfl⟩ := Nat.exists_eq_add_of_le ha.1
        have hk : k < entry.length := by omega
        have heq : fillFrom b.entrySize b.writePos 0 entry b.entries
            (b.writePos * b.entrySize + (0 + k)) = entry[k] := fillFrom_of_eq (by omega) hk
        rw [Nat.zero_add] at heq
        rw [heq, Nat.add_sub_cancel_left, List.getD_eq_getElem _ _ hk]
      · refine (fillFrom_of_ne fun k _ hk => ?_).symm
        rw [h.u32_byte hlt (by omega)]
        omega
  show { b with entries := (b.store (u32 (b.writePos * b.entrySize)) entry).entries } = _
  rw [hentries]
  rfl

theorem Accounts.act_claim (h : Accounts b₀ t b) (hlen : entry.length ≤ b.entrySize) :
    Accounts b₀ (t.append (b.act (.claim entry)).1) (b.act (.claim entry)).2 := by
  have hready := h.valid.ready
  rcases Nat.lt_or_ge b.currentCount b.maxEntries with hroom | hfull
  · have hfree := Nat.not_le.mpr hroom
    have hclaim : b.claim entry = (b.fill entry).incrementCount := by
      have hptr : b.getAvailableElementPtr = some (u32 (b.writePos * b.entrySize)) := by
        simp [getAvailableElementPtr, hready, hfree]
      rw [← h.valid.store_eq hroom hlen, claim, hptr]
    have hincrement : (b.fill entry).incrementCount = (.ok, (b.fill entry).written) := by
      simp [incrementCount, RingBuffer.fill, hready, hfree]
    have hact : b.act (.claim entry) = ({ entered := [entry] }, (b.fill entry).written) := by
      simp only [RingBuffer.act, hclaim, hincrement]
    rw [hact]
    exact h.fill_written hroom hlen
  · have hact : b.act (.claim entry) = ({}, b) := by
      simp [RingBuffer.act, claim, getAvailableElementPtr, hready, hfull]
    rw [hact, Traffic.append_empty]
    exact h

theorem take_one_of_contents (h : b.Valid) (hcount : b.currentCount ≠ 0) :
    b.contents.take 1 = [b.entryAt b.position] := by
  rw [h.contents_popped hcount, List.take_succ_cons, List.take_zero]

/-- The first entry is taken off. -/
theorem Accounts.popped (h : Accounts b₀ t b) (hcount : b.currentCount ≠ 0) :
    Accounts b₀ (t.append { left := [b.entryAt b.position] }) b.popped := by
  have hone := h.drop (Nat.pos_of_ne_zero hcount)
  rw [take_one_of_contents h.valid hcount] at hone
  exact hone

theorem Accounts.act_read (h : Accounts b₀ t b) :
    Accounts b₀ (t.append (b.act .read).1) (b.act .read).2 := by
  by_cases hcount : b.currentCount = 0
  · have hact : b.act .read = ({}, b) := by simp [RingBuffer.act, RingBuffer.read, hcount]
    rw [hact, Traffic.append_empty]
    exact h
  · have hact : b.act .read = ({ left := [b.entryAt b.position] }, b.popped) := by
      simp [RingBuffer.act, RingBuffer.read, hcount]
    rw [hact]
    exact h.popped hcount

/-- The loop of `ring_buffer_read_multi`. -/
theorem Accounts.readEntries (n : ℕ) (h : Accounts b₀ t b) :
    Accounts b₀ (t.append { left := (readEntries n b).2.1 }) (readEntries n b).2.2 := by
  induction n generalizing t b with
  | zero => simpa [RingBuffer.readEntries] using h
  | succ n ih =>
    unfold RingBuffer.readEntries
    by_cases hcount : b.currentCount = 0
    · rw [if_pos hcount]
      simpa using h
    · rw [if_neg hcount]
      have hrest := ih (h.popped hcount)
      rw [Traffic.append_assoc] at hrest
      simpa [Traffic.append] using hrest

theorem Accounts.act_readMulti (size n : ℕ) (h : Accounts b₀ t b) :
    Accounts b₀ (t.append (b.act (.readMulti size n)).1) (b.act (.readMulti size n)).2 := by
  by_cases hsize : size < u32 (n * b.entrySize)
  · have hact : b.act (.readMulti size n) = ({}, b) := by
      simp [RingBuffer.act, readMulti, hsize]
    rw [hact, Traffic.append_empty]
    exact h
  · have hact : b.act (.readMulti size n) =
        ({ left := (RingBuffer.readEntries n b).2.1 }, (RingBuffer.readEntries n b).2.2) := by
      simp [RingBuffer.act, readMulti, hsize]
    rw [hact]
    exact h.readEntries n

theorem Accounts.act_consumeEntries (n : ℕ) (h : Accounts b₀ t b) :
    Accounts b₀ (t.append (b.act (.consumeEntries n)).1) (b.act (.consumeEntries n)).2 := by
  by_cases hn : b.currentCount < n
  · -- More than there are: all of them.
    have hall : b.contents.take n = b.contents.take b.currentCount := by
      have hlen : b.contents.length = b.currentCount := length_contents
      rw [List.take_of_length_le (by omega), List.take_of_length_le (by omega)]
    simp only [RingBuffer.act, consumeEntries, if_pos hn, hall]
    exact h.drop (Nat.le_refl _)
  · simp only [RingBuffer.act, consumeEntries, if_neg hn]
    exact h.drop (Nat.not_lt.mp hn)

theorem Accounts.act_removeFirstElement (h : Accounts b₀ t b) :
    Accounts b₀ (t.append (b.act .removeFirstElement).1) (b.act .removeFirstElement).2 := by
  have hready := h.valid.ready
  by_cases hcount : b.currentCount = 0
  · have hnil : b.contents = [] :=
      List.eq_nil_of_length_eq_zero (by rw [length_contents, hcount])
    have hact : b.act .removeFirstElement = ({}, b) := by
      simp [RingBuffer.act, removeFirstElement, hready, hcount, hnil]
    rw [hact, Traffic.append_empty]
    exact h
  · have hact : b.act .removeFirstElement = ({ left := [b.entryAt b.position] }, b.popped) := by
      simp [RingBuffer.act, removeFirstElement, hready, hcount, take_one_of_contents h.valid hcount]
    rw [hact]
    exact h.popped hcount

theorem Accounts.act_flush (h : Accounts b₀ t b) :
    Accounts b₀ (t.append (b.act .flush).1) (b.act .flush).2 := by
  simp only [RingBuffer.act, RingBuffer.flush, if_pos h.valid.ready]
  exact
    { valid := ⟨h.valid.ready, h.valid.twice, h.valid.bytes,
        Nat.lt_of_lt_of_le Nat.zero_lt_one (Nat.le_max_left _ _), Nat.zero_le _⟩
      order := by
        show List.Forall₂ _ (t.entered ++ []) (t.left ++ b.contents ++ [])
        rw [List.append_nil, List.append_nil]
        exact h.order
      written := by
        show b.totalEntriesWritten = u32 (t.entered ++ []).length
        rw [List.append_nil, h.written]
      read := by
        show u32 (b.totalEntriesRead + (t.flushed + b.contents.length)) =
          u32 (t.left ++ b.contents).length
        rw [← Nat.add_assoc, ← u32_add, h.read, u32_add, List.length_append]
      overruns := h.overruns
      maxEntries := h.maxEntries
      entrySize := h.entrySize
      outside := h.outside }

/-! ## Runs -/

/-- What every call keeps. -/
theorem Accounts.act (call : Call) (hfits : call.Fits b₀.entrySize) (h : Accounts b₀ t b) :
    Accounts b₀ (t.append (b.act call).1) (b.act call).2 := by
  cases call with
  | write entry => exact h.act_write
  | writeMulti entryBuff n => exact h.act_writeMulti entryBuff n
  | claim entry => exact h.act_claim (by rw [h.entrySize]; exact hfits)
  | read => exact h.act_read
  | readMulti size n => exact h.act_readMulti size n
  | consumeEntries n => exact h.act_consumeEntries n
  | removeFirstElement => exact h.act_removeFirstElement
  | flush => exact h.act_flush

/-- What a run of calls keeps. -/
theorem Accounts.run (calls : List Call) (hfits : ∀ call ∈ calls, call.Fits b₀.entrySize)
    (h : Accounts b₀ t b) : Accounts b₀ (t.append (b.run calls).1) (b.run calls).2 := by
  induction calls generalizing t b with
  | nil => simpa [RingBuffer.run] using h
  | cons call calls ih =>
    obtain ⟨hcall, hcalls⟩ := List.forall_mem_cons.mp hfits
    have hrest := ih hcalls (h.act call hcall)
    rw [Traffic.append_assoc] at hrest
    exact hrest

variable (m m' : ℕ → UInt8) {size size' entrySize entrySize' : ℕ} (calls calls' : List Call)

/-- A run of calls on a buffer that was initialized: the entries come out of it, or are still in
it, in the order in which they were taken in, the statistics count them, and no byte behind the
buffer is written. An entry that is written short is longer when it comes out. -/
theorem run_accounts (h2 : 2 * size ≤ 2 ^ 32) (hb : size * entrySize ≤ 2 ^ 32)
    (hfits : ∀ call ∈ calls, call.Fits entrySize) :
    let t := ((initStatic m size entrySize).run calls).1
    let b := ((initStatic m size entrySize).run calls).2
    List.Forall₂ (· <+: ·) t.entered (t.left ++ b.contents) ∧ b.contents.length ≤ size ∧
      b.totalEntriesWritten = u32 t.entered.length ∧
      u32 (b.totalEntriesRead + t.flushed) = u32 t.left.length ∧
      b.totalOverruns = u32 t.refused ∧
      ∀ a, size * entrySize ≤ a → b.entries a = m a := by
  have hrun := (Accounts.initStatic (m := m) h2 hb).run calls hfits
  rw [Traffic.empty_append] at hrun
  refine ⟨hrun.order, ?_, hrun.written, hrun.read, hrun.overruns, hrun.outside⟩
  rw [length_contents]
  exact Nat.le_trans hrun.valid.bounded (Nat.le_of_eq hrun.maxEntries)

/-- A buffer of two bytes: the third write is refused, and what was read makes room. -/
theorem run_accounts_two : List.Forall₂ (· <+: ·) [[(1 : UInt8)], [2], [4]] [[1], [2], [4]] ∧
    ((initStatic (fun _ => 0) 2 1).run
      [.write [1], .write [2], .write [3], .read, .write [4]]).2.totalOverruns = 1 := by
  have hrun := run_accounts (fun _ => 0)
    [.write [1], .write [2], .write [3], .read, .write [4]] (show 2 * 2 ≤ 2 ^ 32 by decide)
    (show 2 * 1 ≤ 2 ^ 32 by decide) (by simp [Call.Fits])
  exact ⟨hrun.1, hrun.2.2.2.2.1⟩

variable {dst src : RingBuffer}

/-- Between buffers of different entry sizes nothing is moved. -/
theorem copy_of_ne (hsize : src.entrySize ≠ dst.entrySize) (n : ℕ) :
    copy dst src n = (0, dst, src) ∧ lookaheadCopy dst 0 src n = (0, dst) := by
  have hlook : lookaheadCopy dst 0 src n = (0, dst) := by
    unfold lookaheadCopy
    rw [if_pos hsize]
    exact ite_self _
  exact ⟨if_pos hsize, hlook⟩

/-- `ring_buffer_lookahead_copy` of the oldest entries, if not more are asked for than are there. -/
theorem Valid.lookaheadCopy_eq (hd : dst.Valid) (hs : src.Valid)
    (hsize : src.entrySize = dst.entrySize) (hn : n ≤ src.currentCount) :
    (lookaheadCopy dst 0 src n).1 = copied dst src n ∧
      (lookaheadCopy dst 0 src n).2.contents =
        dst.contents ++ src.contents.take (copied dst src n) := by
  have hbounded := hs.bounded
  have htwice := hs.twice
  have hcount : ¬src.count < u32 (n + 0) := by
    rw [count, if_pos hs.ready, u32_of_lt (by omega)]
    omega
  have hlook : lookaheadCopy dst 0 src n = lookaheadCopyEntries src 0 n 0 dst := by
    unfold lookaheadCopy
    rw [if_pos ⟨hd.ready, hs.ready⟩, if_neg (not_not.mpr hsize), if_neg hcount]
  have hmin : min n (dst.maxEntries - dst.currentCount) = copied dst src n := by
    unfold copied
    omega
  obtain ⟨hnumber, -, hcontents⟩ := lookaheadCopyEntries_eq 0 n 0 hd hs hsize (by omega)
  rw [hmin, Nat.zero_add] at hnumber
  rw [hmin, List.drop_zero] at hcontents
  rw [hlook]
  exact ⟨hnumber, hcontents⟩

/-- `ring_buffer_copy` between two buffers in use moves the oldest entries, as many as are asked
for, are there and have room; and so do `ring_buffer_lookahead_copy` and then
`ring_buffer_consume_entries`, if not more are asked for than are there. Between buffers of
different entry sizes both functions return 0 and leave the buffers as they are. -/
theorem run_copy (h2 : 2 * size ≤ 2 ^ 32) (hb : size * entrySize ≤ 2 ^ 32)
    (hfits : ∀ call ∈ calls, call.Fits entrySize) (h2' : 2 * size' ≤ 2 ^ 32)
    (hb' : size' * entrySize' ≤ 2 ^ 32) (hfits' : ∀ call ∈ calls', call.Fits entrySize') (n : ℕ) :
    let dst := ((initStatic m size entrySize).run calls).2
    let src := ((initStatic m' size' entrySize').run calls').2
    let k := min n (min src.contents.length (size - dst.contents.length))
    (entrySize' = entrySize →
      (copy dst src n).1 = k ∧
        (copy dst src n).2.1.contents = dst.contents ++ src.contents.take k ∧
        (copy dst src n).2.2.contents = src.contents.drop k ∧
        (n ≤ src.contents.length →
          (lookaheadCopy dst 0 src n).1 = k ∧
            (lookaheadCopy dst 0 src n).2.contents = (copy dst src n).2.1.contents ∧
            (src.consumeEntries k).2.contents = (copy dst src n).2.2.contents)) ∧
      (entrySize' ≠ entrySize →
        copy dst src n = (0, dst, src) ∧ lookaheadCopy dst 0 src n = (0, dst)) := by
  have hdst := (Accounts.initStatic (m := m) h2 hb).run calls hfits
  have hsrc := (Accounts.initStatic (m := m') h2' hb').run calls' hfits'
  revert hdst hsrc
  generalize (initStatic m size entrySize).run calls = r
  generalize (initStatic m' size' entrySize').run calls' = r'
  intro hdst hsrc
  obtain ⟨t, dst⟩ := r
  obtain ⟨t', src⟩ := r'
  have hd : dst.Valid := hdst.valid
  have hs : src.Valid := hsrc.valid
  have hmax : dst.maxEntries = size := hdst.maxEntries
  have hentry : dst.entrySize = entrySize := hdst.entrySize
  have hentry' : src.entrySize = entrySize' := hsrc.entrySize
  have hk : min n (min src.contents.length (size - dst.contents.length)) = copied dst src n := by
    rw [length_contents, length_contents, copied, hmax]
  dsimp only
  rw [hk]
  constructor
  · intro heq
    -- Entry by entry from the front, until the source is empty or the destination is full.
    have hsize : src.entrySize = dst.entrySize := by rw [hentry, hentry', heq]
    have hcopy : copy dst src n = copyEntries n dst src := if_neg (not_not.mpr hsize)
    obtain ⟨h1, -, -, h4, h5⟩ := copyEntries_eq n hd hs hsize
    rw [hcopy]
    refine ⟨h1, h4, h5, fun hn => ?_⟩
    rw [length_contents] at hn
    -- The copy reads what the lookahead reads, and then it is consumed.
    obtain ⟨l1, l2⟩ := hd.lookaheadCopy_eq hs hsize hn
    exact ⟨l1, l2.trans h4.symm, (hs.contents_consumeEntries _).trans h5.symm⟩
  · intro hne
    exact copy_of_ne (by rwa [hentry, hentry']) n

/-- Two entries of three have room. -/
theorem run_copy_two :
    ((copy (initStatic (fun _ => 0) 2 1)
      ((initStatic (fun _ => 0) 3 1).run [.write [7], .write [8], .write [9]]).2 3).2.1).contents =
      [[7], [8]] :=
  ((run_copy (fun _ => 0) (fun _ => 0) [] [.write [7], .write [8], .write [9]] (by decide)
    (by decide) (by simp) (by decide) (by decide) (by simp [Call.Fits]) 3).1 rfl).2.1

end RingBuffer

end Guillemot.Mip
