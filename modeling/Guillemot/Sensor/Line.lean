import Mathlib.Data.List.TakeWhile
import Mathlib.Data.UInt
import Mathlib.Tactic.Common
import Mathlib.Tactic.SplitIfs

/-!
# Lines of the sensor board

`getTTYLine` and `goodLine` of `SubSensorController.cpp`. The board sends a reading as `'S'`, ten
numbers with commas between them, and `'E'`. The outside is a list of events, one for each time that
the loop of `getTTYLine` asks for something.

`getTTYLine` notes in `startFound` that it has met an `'S'`, but never looks at it: a line is
whatever characters of numbers the call has read (`getTTYLine_keeps`), before the `'S'` and across
another one alike. `Clean` is the condition on the bytes under which this is part of one message,
and `accepted_framed_iff` the statement about every line accepted in a session.
-/

namespace Guillemot.Sensor

/-! ## Reading a line -/

/-- What the loop of `getTTYLine` is told in a round. -/
inductive Event where
  /-- `ros::ok()` is false, or no time is left. -/
  | stop
  /-- `select` finds nothing to read. -/
  | timeout
  /-- `read` fails. -/
  | fail
  /-- `read` gets a byte. -/
  | byte (b : UInt8)
deriving DecidableEq, Repr

/-- The bytes that arrive in some events. -/
def arrived (es : List Event) : List UInt8 :=
  es.filterMap fun
    | .byte b => some b
    | _ => none

/-- `'S'`. -/
def startByte : UInt8 := 0x53

/-- `'E'`. -/
def endByte : UInt8 := 0x45

/-- `'\n'`. -/
def newline : UInt8 := 0x0a

/-- `','`. -/
def comma : UInt8 := 0x2c

/-- The characters from `'+'` to `'9'`, which `getTTYLine` keeps. -/
def isKept (b : UInt8) : Bool := 0x2b ≤ b && b ≤ 0x39

/-- `getTTYLine`, with `lastChar` and `ret` as they are at the test of its loop: the line, and the
events that are left, unless the call goes on beyond the last event. -/
def getTTYLine (lastChar : UInt8) (ret : List UInt8) : List Event →
    Option (List UInt8 × List Event)
  | [] => if lastChar = newline then some (ret, []) else none
  | e :: es =>
    if lastChar = newline then some (ret, e :: es)
    else
      match e with
      | .stop => some (ret, es)
      | .timeout => some ([], es)
      | .fail =>
        -- The descriptor is closed, so that the next `select` fails, unless the loop stops first.
        match es with
        | [] => none
        | .stop :: es => some (ret, es)
        | es => some ([], es)
      | .byte b =>
        if b = startByte then getTTYLine b ret es
        else if b = endByte then some (ret, es)
        else if isKept b then getTTYLine b (ret ++ [b]) es
        else getTTYLine b ret es

/-- `goodLine`. -/
def goodLine (val : List UInt8) (varCount : ℕ) : Bool := val.count comma == varCount - 1

/-- `numVariables`. -/
def numVariables : ℕ := 10

/-- The tests of `main` on a line before it is parsed. -/
def accepted (line : List UInt8) : Bool := line ≠ [] && goodLine line numVariables

/-! ## What a call keeps -/

/-- The events that a call uses, the bytes among them, and the line: without a timeout, the line is
made of all characters of numbers that are read. An `'E'` is the last byte that is read. -/
structure Call (ret : List UInt8) (es : List Event) (line : List UInt8) (rest : List Event)
    (used : List Event) : Prop where
  events : es = used ++ rest
  line : line = [] ∨ line = ret ++ (arrived used).filter isKept
  last : endByte ∉ arrived used ∨ ∃ bs, arrived used = bs ++ [endByte] ∧ endByte ∉ bs

/-- A call that reads another byte. -/
theorem Call.cons {ret es line rest used} {b : UInt8} (hb : b ≠ endByte)
    (h : Call (ret ++ [b].filter isKept) es line rest used) :
    Call ret (.byte b :: es) line rest (.byte b :: used) := by
  have harrived : arrived (.byte b :: used) = b :: arrived used := rfl
  refine ⟨by rw [h.events, List.cons_append], ?_, ?_⟩
  · rcases h.line with hnil | hline
    · exact .inl hnil
    · refine .inr ?_
      rw [hline, harrived, List.append_assoc, ← List.filter_append]
      rfl
  · rw [harrived]
    rcases h.last with hnot | ⟨bs, hbs, hnot⟩
    · exact .inl (List.not_mem_cons_of_ne_of_not_mem hb.symm hnot)
    · exact .inr ⟨b :: bs, by rw [hbs, List.cons_append],
        List.not_mem_cons_of_ne_of_not_mem hb.symm hnot⟩

/-- A call that ends with events that carry no byte. -/
theorem Call.ends {ret line : List UInt8} (used rest : List Event) (hnone : arrived used = [])
    (hline : line = [] ∨ line = ret) : Call ret (used ++ rest) line rest used := by
  refine ⟨rfl, ?_, .inl (by simp [hnone])⟩
  rwa [hnone, List.filter_nil, List.append_nil]

/-- What a call of `getTTYLine` reads and keeps. -/
theorem getTTYLine_keeps {lastChar : UInt8} {ret : List UInt8} {es : List Event}
    {line : List UInt8} {rest : List Event} (h : getTTYLine lastChar ret es = some (line, rest)) :
    ∃ used, Call ret es line rest used := by
  induction es generalizing lastChar ret with
  | nil =>
    unfold getTTYLine at h
    split_ifs at h
    obtain ⟨rfl, rfl⟩ := Prod.mk.inj (Option.some.inj h)
    exact ⟨_, .ends [] _ rfl (.inr rfl)⟩
  | cons e es ih =>
    unfold getTTYLine at h
    split_ifs at h with hnewline
    · obtain ⟨rfl, rfl⟩ := Prod.mk.inj (Option.some.inj h)
      exact ⟨_, .ends [] _ rfl (.inr rfl)⟩
    · cases e with
      | stop =>
        obtain ⟨rfl, rfl⟩ := Prod.mk.inj (Option.some.inj h)
        exact ⟨_, .ends [.stop] _ rfl (.inr rfl)⟩
      | timeout =>
        obtain ⟨rfl, rfl⟩ := Prod.mk.inj (Option.some.inj h)
        exact ⟨_, .ends [.timeout] _ rfl (.inl rfl)⟩
      | fail =>
        -- The `select` on the closed descriptor fails, or is not reached.
        simp only at h
        split at h
        · cases h
        · obtain ⟨rfl, rfl⟩ := Prod.mk.inj (Option.some.inj h)
          exact ⟨_, .ends [.fail, .stop] _ rfl (.inr rfl)⟩
        · obtain ⟨rfl, rfl⟩ := Prod.mk.inj (Option.some.inj h)
          exact ⟨_, .ends [.fail] _ rfl (.inl rfl)⟩
      | byte b =>
        simp only at h
        split_ifs at h with hstart hend hkept
        · obtain ⟨used, hused⟩ := ih h
          have hdropped : [b].filter isKept = [] := by rw [hstart]; rfl
          exact ⟨_, .cons (by rw [hstart]; decide) (by rwa [hdropped, List.append_nil])⟩
        · obtain ⟨rfl, rfl⟩ := Prod.mk.inj (Option.some.inj h)
          exact ⟨[.byte b], rfl, .inr (by rw [hend]; simp [arrived, isKept, endByte]),
            .inr ⟨[], by rw [hend]; rfl, List.not_mem_nil⟩⟩
        · obtain ⟨used, hused⟩ := ih h
          have hkeeps : [b].filter isKept = [b] := by simp [hkept]
          exact ⟨_, .cons hend (by rwa [hkeeps])⟩
        · obtain ⟨used, hused⟩ := ih h
          have hdropped : [b].filter isKept = [] := by simp [hkept]
          exact ⟨_, .cons hend (by rwa [hdropped, List.append_nil])⟩

/-! ## Messages in a stream -/

/-- The bytes that begin and end messages. -/
def isMark (b : UInt8) : Bool := b == startByte || b == endByte

/-- The last mark in some bytes. -/
def lastMark (bs : List UInt8) : Option UInt8 := bs.reverse.find? isMark

/-- The first mark in some bytes. -/
def firstMark (bs : List UInt8) : Option UInt8 := bs.find? isMark

/-- Of the bytes that are read, those that are kept lie in `body`, a stretch that arrives between an
`'S'` and the next `'E'` with no other mark in it: `lead` and `trail` are what is read outside of
this stretch, and nothing of it is kept. -/
def Framed (before read after : List UInt8) : Prop :=
  ∃ lead body trail pre body₁ body₂ post,
    read = lead ++ body ++ trail ∧
    before ++ lead = pre ++ startByte :: body₁ ∧
    trail ++ after = body₂ ++ endByte :: post ∧
    (∀ b ∈ body₁ ++ body ++ body₂, isMark b = false) ∧
    ∀ b ∈ lead ++ trail, isKept b = false

/-- The condition on the bytes that a call reads, with those that have arrived before and those that
arrive later. -/
structure Clean (before read after : List UInt8) : Prop where
  /-- The last mark before the first byte that is kept is an `'S'`. -/
  opened : lastMark (before ++ read.takeWhile fun b => !isKept b) = some startByte
  /-- No `'S'` is read behind that byte. -/
  unbroken : startByte ∉ read.dropWhile fun b => !isKept b
  /-- An `'E'` is read, or is the first mark to arrive later. -/
  closed : endByte ∈ read ∨ firstMark after = some endByte

instance (before read after : List UInt8) : Decidable (Clean before read after) :=
  decidable_of_iff (_ ∧ _ ∧ _) ⟨fun ⟨h₁, h₂, h₃⟩ => ⟨h₁, h₂, h₃⟩, fun h => ⟨h.1, h.2, h.3⟩⟩

theorem firstMark_eq_some_iff {bs : List UInt8} {m : UInt8} :
    firstMark bs = some m ↔
      isMark m = true ∧ ∃ as cs, bs = as ++ m :: cs ∧ ∀ b ∈ as, isMark b = false := by
  unfold firstMark
  rw [List.find?_eq_some_iff_append]
  simp

theorem lastMark_eq_some_iff {bs : List UInt8} {m : UInt8} :
    lastMark bs = some m ↔
      isMark m = true ∧ ∃ as cs, bs = as ++ m :: cs ∧ ∀ b ∈ cs, isMark b = false := by
  unfold lastMark
  rw [List.find?_eq_some_iff_append]
  constructor
  · rintro ⟨hm, as, cs, hbs, hnone⟩
    refine ⟨hm, cs.reverse, as.reverse, ?_, by simpa using hnone⟩
    rw [← List.reverse_reverse bs, hbs]
    simp
  · rintro ⟨hm, as, cs, rfl, hnone⟩
    exact ⟨hm, cs.reverse, as.reverse, by simp, by simpa using hnone⟩

theorem isMark_start : isMark startByte = true := rfl

theorem isMark_end : isMark endByte = true := rfl

/-- A byte that is neither of the marks. -/
theorem isMark_eq_false {b : UInt8} (hs : b ≠ startByte) (he : b ≠ endByte) : isMark b = false := by
  simp [isMark, hs, he]

/-- Cutting a list at its first byte that is kept. -/
theorem exists_first_kept {bs : List UInt8} (h : ∃ b ∈ bs, isKept b = true) :
    ∃ as k cs, bs = as ++ k :: cs ∧ isKept k = true ∧ ∀ b ∈ as, isKept b = false := by
  obtain ⟨k, hk⟩ := Option.isSome_iff_exists.mp (List.find?_isSome.mpr h)
  obtain ⟨hkept, as, cs, hbs, hnone⟩ := List.find?_eq_some_iff_append.mp hk
  exact ⟨as, k, cs, hbs, hkept, by simpa using hnone⟩

theorem takeWhile_first_kept {as : List UInt8} {k : UInt8} (hk : isKept k = true)
    (has : ∀ b ∈ as, isKept b = false) (cs : List UInt8) :
    (as ++ k :: cs).takeWhile (fun b => !isKept b) = as ∧
      (as ++ k :: cs).dropWhile (fun b => !isKept b) = k :: cs := by
  have hpass : ∀ b ∈ as, (!isKept b) = true := fun b hb => by rw [has b hb]; rfl
  rw [List.takeWhile_append_of_pos hpass, List.dropWhile_append_of_pos hpass]
  simp [hk]

/-- Behind the `'E'` that ends what is read there is nothing more of it. -/
theorem eq_nil_of_last {read xs ys : List UInt8}
    (hlast : endByte ∉ read ∨ ∃ bs, read = bs ++ [endByte] ∧ endByte ∉ bs)
    (hread : read = xs ++ endByte :: ys) : ys = [] := by
  rcases hlast with hnot | ⟨bs, hbs, hnot⟩
  · exact absurd (hread ▸ List.mem_append_right xs List.mem_cons_self) hnot
  · rcases List.eq_nil_or_concat ys with hnil | ⟨zs, z, rfl⟩
    · exact hnil
    · have hends : xs ++ endByte :: zs ++ [z] = bs ++ [endByte] := by
        rw [← hbs, hread]
        simp
      have hinit : xs ++ endByte :: zs = bs := (List.append_inj' hends rfl).1
      exact absurd (hinit ▸ List.mem_append_right xs List.mem_cons_self) hnot

section Frame

variable {before read after : List UInt8}

/-- How far a stretch without marks goes behind what is kept: to the end of what is read, or beyond,
or up to an `'E'` in it. -/
theorem stretch_end {front trail body post : List UInt8} (hread : read = front ++ trail)
    (htrail : trail ++ after = body ++ endByte :: post) (hbody : ∀ b ∈ body, isMark b = false)
    (hlast : endByte ∉ read ∨ ∃ bs, read = bs ++ [endByte] ∧ endByte ∉ bs) :
    startByte ∉ trail ∧ (endByte ∈ read ∨ firstMark after = some endByte) := by
  have hstart : startByte ∉ body := fun hs => absurd (hbody startByte hs) (by simp [isMark_start])
  rcases List.append_eq_append_iff.mp htrail with ⟨c, rfl, hafter⟩ | ⟨c, rfl, hpost⟩
  · refine ⟨fun hs => hstart (by simp [hs]), .inr ?_⟩
    exact firstMark_eq_some_iff.mpr
      ⟨isMark_end, c, post, hafter, fun b hb => hbody b (by simp [hb])⟩
  -- The `'E'` of the stretch is the first byte behind it, or one that is read.
  · cases c with
    | nil =>
      refine ⟨by simpa using hstart, .inr ?_⟩
      exact firstMark_eq_some_iff.mpr ⟨isMark_end, [], post, hpost.symm, by simp⟩
    | cons e c =>
      obtain ⟨rfl, -⟩ := List.cons.inj hpost
      have hread' : read = (front ++ body) ++ endByte :: c := by rw [hread, List.append_assoc]
      obtain rfl := eq_nil_of_last hlast hread'
      refine ⟨?_, .inl (by simp [hread'])⟩
      simpa using ⟨hstart, by decide⟩

/-- What is kept of a message is read cleanly. -/
theorem Framed.clean (h : Framed before read after)
    (hlast : endByte ∉ read ∨ ∃ bs, read = bs ++ [endByte] ∧ endByte ∉ bs)
    (hkept : ∃ b ∈ read, isKept b = true) : Clean before read after := by
  obtain ⟨lead, body, trail, pre, body₁, body₂, post, hread, hlead, htrail, hmarks, hnone⟩ := h
  -- The first byte that is kept lies in the stretch.
  have hbody : ∃ b ∈ body, isKept b = true := by
    obtain ⟨b, hb, hbk⟩ := hkept
    rw [hread, List.mem_append, List.mem_append] at hb
    rcases hb with (hb | hb) | hb
    · exact absurd hbk (by simp [hnone b (by simp [hb])])
    · exact ⟨b, hb, hbk⟩
    · exact absurd hbk (by simp [hnone b (by simp [hb])])
  obtain ⟨as, k, cs, rfl, hk, has⟩ := exists_first_kept hbody
  have hskipped : ∀ b ∈ lead ++ as, isKept b = false := by
    intro b hb
    rcases List.mem_append.mp hb with hb | hb
    · exact hnone b (by simp [hb])
    · exact has b hb
  -- Nothing is kept before that byte, so that the cut of `Clean` is made there.
  have hcut := takeWhile_first_kept hk hskipped (cs ++ trail)
  have hsplit : read = (lead ++ as) ++ k :: (cs ++ trail) := by rw [hread]; simp
  rw [← hsplit] at hcut
  have hend : startByte ∉ trail ∧ (endByte ∈ read ∨ firstMark after = some endByte) :=
    stretch_end hread htrail (fun b hb => hmarks b (by simp [hb])) hlast
  -- Before the cut the stretch has no mark but the `'S'` in front of it, and behind it no `'S'`.
  refine ⟨?_, ?_, hend.2⟩
  · rw [hcut.1, lastMark_eq_some_iff]
    refine ⟨isMark_start, pre, body₁ ++ as, ?_, fun b hb => hmarks b ?_⟩
    · rw [← List.append_assoc, hlead]
      simp
    · simp only [List.mem_append, List.mem_cons] at hb ⊢
      tauto
  · rw [hcut.2]
    intro hs
    rw [← List.cons_append, List.mem_append] at hs
    rcases hs with hs | hs
    · have hs' : startByte ∈ body₁ ++ (as ++ k :: cs) ++ body₂ := by
        simp only [List.mem_append]
        exact .inl (.inr (.inr hs))
      exact absurd (hmarks _ hs') (by simp [isMark_start])
    · exact hend.1 hs

/-- What is read cleanly and kept is part of a message. -/
theorem Clean.framed (h : Clean before read after)
    (hlast : endByte ∉ read ∨ ∃ bs, read = bs ++ [endByte] ∧ endByte ∉ bs)
    (hkept : ∃ b ∈ read, isKept b = true) : Framed before read after := by
  obtain ⟨as, k, cs, rfl, hk, has⟩ := exists_first_kept hkept
  obtain ⟨hopened, hunbroken, hclosed⟩ := h
  rw [(takeWhile_first_kept hk has _).1, lastMark_eq_some_iff] at hopened
  rw [(takeWhile_first_kept hk has _).2] at hunbroken
  obtain ⟨-, pre, body₁, hlead, hbody₁⟩ := hopened
  by_cases hend : endByte ∈ k :: cs
  · -- The stretch ends before the last byte that is read.
    obtain ⟨body, ys, hbody⟩ := List.append_of_mem hend
    have hread : as ++ k :: cs = (as ++ body) ++ endByte :: ys := by rw [hbody]; simp
    obtain rfl := eq_nil_of_last hlast hread
    have hnot : endByte ∉ body := by
      intro he
      obtain ⟨xs, zs, rfl⟩ := List.append_of_mem he
      have hread' : as ++ k :: cs = (as ++ xs) ++ endByte :: (zs ++ [endByte]) := by
        rw [hread]
        simp
      exact absurd (eq_nil_of_last hlast hread') (by simp)
    refine ⟨as, body, [endByte], pre, body₁, [], after, by simpa using hread, hlead, rfl, ?_, ?_⟩
    · intro b hb
      simp only [List.mem_append, List.not_mem_nil, or_false] at hb
      rcases hb with hb | hb
      · exact hbody₁ b hb
      · have hbs : b ≠ startByte := fun hbs => hunbroken (by rw [hbody]; simp [← hbs, hb])
        exact isMark_eq_false hbs fun hbe => hnot (hbe ▸ hb)
    · intro b hb
      rcases List.mem_append.mp hb with hb | hb
      · exact has b hb
      · rw [List.mem_singleton.mp hb]
        decide
  -- No `'E'` is read, and the stretch goes on to the one that arrives later.
  · have hnot : endByte ∉ as ++ k :: cs := by
      intro he
      rcases List.mem_append.mp he with he | he
      · obtain ⟨xs, zs, rfl⟩ := List.append_of_mem he
        have hread : (xs ++ endByte :: zs) ++ k :: cs = xs ++ endByte :: (zs ++ k :: cs) := by
          simp
        exact absurd (eq_nil_of_last hlast hread) (by simp)
      · exact hend he
    obtain ⟨-, body₂, post, hafter, hbody₂⟩ :=
      firstMark_eq_some_iff.mp (hclosed.resolve_left hnot)
    refine ⟨as, k :: cs, [], pre, body₁, body₂, post, by simp, hlead, hafter, ?_,
        by simpa using has⟩
    intro b hb
    simp only [List.mem_append] at hb
    rcases hb with (hb | hb) | hb
    · exact hbody₁ b hb
    · exact isMark_eq_false (fun hbs => hunbroken (hbs ▸ hb)) fun hbe => hend (hbe ▸ hb)
    · exact hbody₂ b hb

end Frame

/-! ## Sessions -/

/-- One call of `getTTYLine` in a session: the bytes that have arrived before it, those that it
reads, those that arrive later, and the line that it returns. -/
structure Reading where
  before : List UInt8
  read : List UInt8
  after : List UInt8
  line : List UInt8
deriving DecidableEq, Repr

/-- The calls of `getTTYLine` on some events, one for each value that its `lastChar` holds before it
is set; `before` are the bytes that have arrived. -/
def session : List UInt8 → List UInt8 → List Event → List Reading
  | [], _, _ => []
  | junk :: junks, before, es =>
    match getTTYLine junk [] es with
    | none => []
    | some (line, rest) =>
      let read := arrived (es.take (es.length - rest.length))
      ⟨before, read, arrived rest, line⟩ :: session junks (before ++ read) rest

/-- A call of a session reads what its line is made of. -/
theorem session_keeps {junks before : List UInt8} {es : List Event} {r : Reading}
    (h : r ∈ session junks before es) :
    (r.line = [] ∨ r.line = r.read.filter isKept) ∧
      (endByte ∉ r.read ∨ ∃ bs, r.read = bs ++ [endByte] ∧ endByte ∉ bs) := by
  induction junks generalizing before es with
  | nil => simp [session] at h
  | cons junk junks ih =>
    unfold session at h
    split at h
    · simp at h
    · rename_i line rest hcall
      obtain ⟨used, hused⟩ := getTTYLine_keeps hcall
      have hread : es.take (es.length - rest.length) = used := by
        rw [hused.events, List.length_append, Nat.add_sub_cancel]
        exact List.take_left
      rcases List.mem_cons.mp h with rfl | hrest
      · rw [hread]
        exact ⟨by simpa using hused.line, hused.last⟩
      · exact ih hrest

/-- In every session on a stream, a line that is accepted is part of one message exactly when it is
read cleanly. -/
theorem accepted_framed_iff (junks : List UInt8) (es : List Event) (r : Reading)
    (hr : r ∈ session junks [] es) (haccepted : accepted r.line = true) :
    (r.line = r.read.filter isKept ∧ Framed r.before r.read r.after) ↔
      Clean r.before r.read r.after := by
  obtain ⟨hline, hlast⟩ := session_keeps hr
  obtain ⟨hne, -⟩ : r.line ≠ [] ∧ goodLine r.line numVariables = true := by
    simpa [accepted] using haccepted
  -- After a timeout the line is empty, which is not accepted.
  have hfilter := hline.resolve_left hne
  have hkept : ∃ b ∈ r.read, isKept b = true := by
    obtain ⟨b, hb⟩ := List.exists_mem_of_ne_nil _ hne
    rw [hfilter, List.mem_filter] at hb
    exact ⟨b, hb⟩
  exact ⟨fun h => h.2.clean hlast hkept, fun h => ⟨hfilter, h.framed hlast hkept⟩⟩

/-- The first half of a message, the rest of which is lost, and another message with as many fields
as the first one lacks: `"S1,2,3,4,5"` and `"S1,2,3,4,5,6E"`. -/
def spliced : List UInt8 :=
  [0x53, 0x31, 0x2c, 0x32, 0x2c, 0x33, 0x2c, 0x34, 0x2c, 0x35,
    0x53, 0x31, 0x2c, 0x32, 0x2c, 0x33, 0x2c, 0x34, 0x2c, 0x35, 0x2c, 0x36, 0x45]

/-- Two messages make up one line, which is accepted. -/
theorem spliced_accepted :
    ∃ r ∈ session [0] [] (spliced.map .byte), accepted r.line = true ∧
      ¬ (r.line = r.read.filter isKept ∧ Framed r.before r.read r.after) := by
  refine ⟨⟨[], spliced, [], spliced.filter isKept⟩, by decide, by decide, ?_⟩
  rintro ⟨-, hframed⟩
  have hlast : endByte ∉ spliced ∨ ∃ bs, spliced = bs ++ [endByte] ∧ endByte ∉ bs :=
    .inr ⟨spliced.dropLast, by decide, by decide⟩
  have hclean := hframed.clean hlast ⟨comma, by decide, by decide⟩
  exact absurd hclean.unbroken (by decide)

/-- A whole message is read cleanly: `"S1,2,3,4,5,6,7,8,9,0E"` and the end of its line. -/
def whole : List UInt8 :=
  [0x53, 0x31, 0x2c, 0x32, 0x2c, 0x33, 0x2c, 0x34, 0x2c, 0x35, 0x2c, 0x36, 0x2c, 0x37, 0x2c, 0x38,
    0x2c, 0x39, 0x2c, 0x30, 0x45]

theorem whole_framed :
    let r : Reading := ⟨[], whole, [0x0d, 0x0a], whole.filter isKept⟩
    r ∈ session [0, 0] [] ((whole ++ [0x0d, 0x0a]).map .byte) ∧
      (r.line = r.read.filter isKept ∧ Framed r.before r.read r.after) :=
  ⟨by decide, (accepted_framed_iff [0, 0] ((whole ++ [0x0d, 0x0a]).map .byte)
    ⟨[], whole, [0x0d, 0x0a], whole.filter isKept⟩ (by decide) (by decide)).mpr (by decide)⟩

end Guillemot.Sensor
