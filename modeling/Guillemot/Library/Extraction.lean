import Mathlib.Algebra.Group.Int.Defs
import Mathlib.Data.List.TakeWhile
import Mathlib.Tactic.Common

/-!
# Formatted input

The extractions of words and of 32-bit integers from a stream of characters, as `operator>>` of a
C++ input stream performs them in the "C" locale. A stream is what is left of its text and its flag
`fail`. There is no flag for the end of the text: where it is set nothing is left, and an
extraction fails at the end whether it is set or not.

`WordText` and `IntText` say what an extraction accepts, and `readWord_iff` and `readInt_iff` that
an extraction succeeds on such a text and on no other.
-/

namespace Guillemot

namespace Extraction

/-- An input stream: the characters left, and whether an extraction has failed. -/
structure IStream where
  rest : List Char
  fail : Bool
deriving DecidableEq, Repr

/-- `isspace` in the "C" locale. -/
def isSpace (c : Char) : Bool := c = ' ' || (9 ≤ c.toNat && c.toNat ≤ 13)

/-- What every extraction begins with: white space is skipped, and at the end it fails. -/
def sentry (s : IStream) : IStream :=
  if s.fail then s
  else
    match s.rest.dropWhile isSpace with
    | [] => ⟨[], true⟩
    | c :: cs => ⟨c :: cs, false⟩

/-- The extraction of a word into an empty string. -/
def readWord (s : IStream) : List Char × IStream :=
  let s := sentry s
  if s.fail then ([], s)
  else (s.rest.takeWhile (!isSpace ·), ⟨s.rest.dropWhile (!isSpace ·), false⟩)

/-- Whether a numeral is negative, and the numeral behind its sign. -/
def splitSign : List Char → Bool × List Char
  | '-' :: cs => (true, cs)
  | '+' :: cs => (false, cs)
  | cs => (false, cs)

/-- The number that a sign and digits stand for. -/
def numeral (neg : Bool) (digits : List Char) : ℤ :=
  if neg then -(Nat.ofDigitChars 10 digits 0 : ℤ) else Nat.ofDigitChars 10 digits 0

/-- The values of a 32-bit integer. -/
def fits (n : ℤ) : Bool := -2 ^ 31 ≤ n && n < 2 ^ 31

/-- The extraction of a number into a variable: without digits it becomes zero, out of range the
nearest value, and either way the extraction has failed. At the end the variable keeps its value. -/
def readInt (old : Int32) (s : IStream) : Int32 × IStream :=
  let s := sentry s
  if s.fail then (old, s)
  else
    let signed := splitSign s.rest
    let digits := signed.2.takeWhile Char.isDigit
    let rest := signed.2.dropWhile Char.isDigit
    let n := numeral signed.1 digits
    if digits = [] then (0, ⟨rest, true⟩)
    else if fits n then (.ofInt n, ⟨rest, false⟩)
    else (if n < 0 then .minValue else .maxValue, ⟨rest, true⟩)

/-- How a number is written out. -/
def showInt (v : Int32) : List Char :=
  if v.toInt < 0 then '-' :: Nat.toDigits 10 v.toInt.natAbs else Nat.toDigits 10 v.toInt.natAbs

/-! ## Scanning -/

section Scanning

variable {α : Type*} {p : α → Bool}

/-- Behind the longest run of elements with a property comes one without it, or nothing. -/
theorem head_dropWhile (xs : List α) : ∀ c ∈ (xs.dropWhile p).head?, p c = false := by
  intro c hc
  have := List.head?_dropWhile_not p xs
  simp_all

/-- The longest run of elements with a property in front of one without it. -/
theorem takeWhile_append {xs rest : List α} (hxs : ∀ c ∈ xs, p c = true)
    (hrest : ∀ c ∈ rest.head?, p c = false) : (xs ++ rest).takeWhile p = xs := by
  rw [List.takeWhile_append_of_pos hxs]
  cases rest with
  | nil => simp
  | cons c rest => simp [hrest c rfl]

/-- What comes behind it. -/
theorem dropWhile_append {xs rest : List α} (hxs : ∀ c ∈ xs, p c = true)
    (hrest : ∀ c ∈ rest.head?, p c = false) : (xs ++ rest).dropWhile p = rest := by
  rw [List.dropWhile_append_of_pos hxs]
  cases rest with
  | nil => rfl
  | cons c rest => simp [hrest c rfl]

/-- A list is the longest run and what comes behind it. -/
theorem eq_append_iff {xs run rest : List α} :
    xs = run ++ rest ∧ (∀ c ∈ run, p c = true) ∧ (∀ c ∈ rest.head?, p c = false) ↔
      xs.takeWhile p = run ∧ xs.dropWhile p = rest := by
  constructor
  · rintro ⟨rfl, hrun, hrest⟩
    exact ⟨takeWhile_append hrun hrest, dropWhile_append hrun hrest⟩
  · rintro ⟨rfl, rfl⟩
    exact ⟨List.takeWhile_append_dropWhile.symm, fun c hc => List.mem_takeWhile_imp hc,
      head_dropWhile xs⟩

end Scanning

/-! ## What the extractions accept -/

/-- A text that begins with a word, after white space, and what is left of it behind the word. -/
def WordText (text word rest : List Char) : Prop :=
  word ≠ [] ∧ ∃ space, text = space ++ (word ++ rest) ∧ (∀ c ∈ space, isSpace c = true) ∧
    (∀ c ∈ word, isSpace c = false) ∧ ∀ c ∈ rest.head?, isSpace c = true

/-- A text that begins with the numeral of a 32-bit integer, after white space, and what is left of
it behind the last digit. -/
def IntText (text : List Char) (v : Int32) (rest : List Char) : Prop :=
  ∃ space signed digits, text = space ++ signed ∧ (∀ c ∈ space, isSpace c = true) ∧
    (splitSign signed).2 = digits ++ rest ∧ digits ≠ [] ∧ (∀ c ∈ digits, c.isDigit = true) ∧
    (∀ c ∈ rest.head?, c.isDigit = false) ∧ v.toInt = numeral (splitSign signed).1 digits

@[simp]
theorem readWord_fail (rest : List Char) : readWord ⟨rest, true⟩ = ([], ⟨rest, true⟩) := rfl

@[simp]
theorem readInt_fail (old : Int32) (rest : List Char) :
    readInt old ⟨rest, true⟩ = (old, ⟨rest, true⟩) := rfl

/-- Behind white space an extraction goes on, unless the text ends. -/
theorem sentry_of_head {space text : List Char} (hspace : ∀ c ∈ space, isSpace c = true)
    (htext : ∀ c ∈ text.head?, isSpace c = false) (hne : text ≠ []) :
    sentry ⟨space ++ text, false⟩ = ⟨text, false⟩ := by
  cases text with
  | nil => exact absurd rfl hne
  | cons c text => simp [sentry, dropWhile_append hspace htext]

/-- A text where an extraction goes on has its white space skipped, and something left. -/
theorem sentry_cases (text : List Char) :
    (sentry ⟨text, false⟩ = ⟨[], true⟩ ∧ ∀ c ∈ text, isSpace c = true) ∨
      ∃ c cs, sentry ⟨text, false⟩ = ⟨c :: cs, false⟩ ∧ isSpace c = false ∧
        text = text.takeWhile isSpace ++ c :: cs := by
  have hsplit : text.takeWhile isSpace ++ text.dropWhile isSpace = text :=
    List.takeWhile_append_dropWhile
  cases hdrop : text.dropWhile isSpace with
  | nil =>
    refine .inl ⟨by simp [sentry, hdrop], fun c hc => ?_⟩
    rw [hdrop, List.append_nil] at hsplit
    rw [← hsplit] at hc
    exact List.mem_takeWhile_imp hc
  | cons c cs =>
    refine .inr ⟨c, cs, by simp [sentry, hdrop], head_dropWhile (p := isSpace) text c ?_, ?_⟩
    · simp [hdrop]
    · rw [← hdrop, hsplit]

/-- The extraction of a word succeeds on a text that begins with it, and on no other. -/
theorem readWord_iff {text word rest : List Char} :
    readWord ⟨text, false⟩ = (word, ⟨rest, false⟩) ↔ WordText text word rest := by
  constructor
  · intro h
    rcases sentry_cases text with ⟨hs, -⟩ | ⟨c, cs, hs, hc, htext⟩
    · simp [readWord, hs] at h
    · simp only [readWord, hs, Bool.false_eq_true, if_false, Prod.mk.injEq, IStream.mk.injEq,
        and_true] at h
      obtain ⟨hsplit, hword, hrest⟩ := eq_append_iff.mpr h
      refine ⟨?_, text.takeWhile isSpace, by rw [← hsplit]; exact htext,
        fun c hc => List.mem_takeWhile_imp hc, by simpa using hword, by simpa using hrest⟩
      rw [← h.1]
      simp [hc]
  · rintro ⟨hne, space, rfl, hspace, hword, hrest⟩
    obtain ⟨c, cs, rfl⟩ := List.exists_cons_of_ne_nil hne
    have hc : isSpace c = false := hword c (by simp)
    have hsplit := eq_append_iff.mp ⟨(rfl : c :: cs ++ rest = _),
      (fun d hd => by rw [hword d hd]; rfl : ∀ d ∈ c :: cs, (!isSpace d) = true),
      (fun d hd => by rw [hrest d hd]; rfl : ∀ d ∈ rest.head?, (!isSpace d) = false)⟩
    rw [readWord, sentry_of_head hspace (by simpa using hc) (by simp)]
    simp only [Bool.false_eq_true, if_false]
    rw [hsplit.1, hsplit.2]

/-- The numbers that fit are those of 32 bits. -/
theorem toInt_eq_iff {n : ℤ} {v : Int32} :
    v.toInt = n ↔ fits n = true ∧ Int32.ofInt n = v := by
  have hle := v.le_toInt
  have hlt := v.toInt_lt
  constructor
  · rintro rfl
    exact ⟨by simp only [fits, hle, hlt, decide_true, Bool.and_self], Int32.ofInt_toInt v⟩
  · rintro ⟨hfits, rfl⟩
    simp only [fits, Bool.and_eq_true, decide_eq_true_eq] at hfits
    exact Int32.toInt_ofInt_of_le hfits.1 hfits.2

/-- A digit is no white space. -/
theorem isSpace_of_isDigit {c : Char} (h : c.isDigit = true) : isSpace c = false := by
  simp only [Char.isDigit, ge_iff_le, Bool.and_eq_true, decide_eq_true_eq] at h
  have hle : 48 ≤ c.toNat := h.1
  have hspace : c ≠ ' ' := by
    rintro rfl
    simp at hle
  simp only [isSpace, hspace, decide_false, Bool.false_or, Bool.and_eq_false_iff,
    decide_eq_false_iff_not]
  omega

/-- A numeral begins with a sign or a digit, not with white space. -/
theorem head_signed {signed digits rest : List Char} (h : (splitSign signed).2 = digits ++ rest)
    (hne : digits ≠ []) (hall : ∀ c ∈ digits, c.isDigit = true) :
    (∀ c ∈ signed.head?, isSpace c = false) ∧ signed ≠ [] := by
  obtain ⟨d, ds, rfl⟩ := List.exists_cons_of_ne_nil hne
  unfold splitSign at h
  split at h
  · exact ⟨by simp [isSpace], by simp⟩
  · exact ⟨by simp [isSpace], by simp⟩
  · obtain rfl : signed = d :: (ds ++ rest) := h
    exact ⟨by simpa using isSpace_of_isDigit (hall d (by simp)), by simp⟩

/-- The extraction of a number succeeds on a text that begins with a numeral for it, and on no
other. -/
theorem readInt_iff {old v : Int32} {text rest : List Char} :
    readInt old ⟨text, false⟩ = (v, ⟨rest, false⟩) ↔ IntText text v rest := by
  constructor
  · intro h
    rcases sentry_cases text with ⟨hs, -⟩ | ⟨c, cs, hs, hc, htext⟩
    · simp [readInt, hs] at h
    · simp only [readInt, hs, Bool.false_eq_true, if_false] at h
      split_ifs at h with hdigits hfits
      -- of the four ways to end, one leaves the stream in order
      · simp at h
      · simp only [Prod.mk.injEq, IStream.mk.injEq, and_true] at h
        obtain ⟨hsplit, hall, hhead⟩ := eq_append_iff.mpr ⟨rfl, h.2⟩
        exact ⟨text.takeWhile isSpace, c :: cs, _, htext, fun c hc => List.mem_takeWhile_imp hc,
          hsplit, hdigits, hall, hhead, toInt_eq_iff.mpr ⟨hfits, h.1⟩⟩
      · simp at h
      · simp at h
  · rintro ⟨space, signed, digits, rfl, hspace, hsplit, hne, hall, hhead, hv⟩
    obtain ⟨hfits, hv⟩ := toInt_eq_iff.mp hv
    obtain ⟨htake, hdrop⟩ := eq_append_iff.mp ⟨hsplit, hall, hhead⟩
    obtain ⟨hhead, hsigned⟩ := head_signed hsplit hne hall
    rw [readInt, sentry_of_head hspace hhead hsigned]
    simp only [Bool.false_eq_true, if_false, htake, hdrop, hne, hfits, if_true, hv]

/-- Digits have no sign in front. -/
theorem splitSign_digits {digits rest : List Char} (hne : digits ≠ [])
    (hall : ∀ c ∈ digits, c.isDigit = true) :
    splitSign (digits ++ rest) = (false, digits ++ rest) := by
  obtain ⟨d, ds, rfl⟩ := List.exists_cons_of_ne_nil hne
  have hd : d.isDigit = true := hall d (by simp)
  unfold splitSign
  split
  · next h => simp_all
  · next h => simp_all
  · rfl

/-- A number that is written out is read back, whatever follows that is not a digit. -/
theorem intText_showInt (v : Int32) {space rest : List Char}
    (hspace : ∀ c ∈ space, isSpace c = true) (hrest : ∀ c ∈ rest.head?, c.isDigit = false) :
    IntText (space ++ (showInt v ++ rest)) v rest := by
  set digits := Nat.toDigits 10 v.toInt.natAbs with hdigits
  have hne : digits ≠ [] := Nat.toDigits_ne_nil
  have hall : ∀ c ∈ digits, c.isDigit = true :=
    fun c hc => Nat.isDigit_of_mem_toDigits (by decide) (by decide) hc
  have hvalue : Nat.ofDigitChars 10 digits 0 = v.toInt.natAbs := Nat.ofDigitChars_ten_toDigits
  by_cases hneg : v.toInt < 0
  · have hshow : showInt v = '-' :: digits := by rw [showInt, if_pos hneg]
    refine ⟨space, showInt v ++ rest, digits, rfl, hspace, by rw [hshow]; rfl, hne, hall, hrest, ?_⟩
    rw [hshow, List.cons_append, splitSign, numeral, if_pos rfl, hvalue]
    omega
  · have hshow : showInt v = digits := by rw [showInt, if_neg hneg]
    have hsign : splitSign (showInt v ++ rest) = (false, digits ++ rest) := by
      rw [hshow]
      exact splitSign_digits hne hall
    refine ⟨space, showInt v ++ rest, digits, rfl, hspace, by rw [hsign], hne, hall, hrest, ?_⟩
    rw [hsign, numeral, if_neg Bool.false_ne_true, hvalue]
    omega

/-- A word is read back, whatever white space follows. -/
theorem wordText_of {space word rest : List Char} (hspace : ∀ c ∈ space, isSpace c = true)
    (hne : word ≠ []) (hword : ∀ c ∈ word, isSpace c = false)
    (hrest : ∀ c ∈ rest.head?, isSpace c = true) :
    WordText (space ++ (word ++ rest)) word rest :=
  ⟨hne, space, rfl, hspace, hword, hrest⟩

/-- The extraction of a word finds one, or fails and leaves an empty word. -/
theorem readWord_cases (text : List Char) :
    (∃ word rest, readWord ⟨text, false⟩ = (word, ⟨rest, false⟩) ∧ WordText text word rest) ∨
      ∃ rest, readWord ⟨text, false⟩ = ([], ⟨rest, true⟩) := by
  rcases h : readWord ⟨text, false⟩ with ⟨word, rest, fail⟩
  cases fail with
  | false => exact .inl ⟨word, rest, rfl, readWord_iff.mp h⟩
  | true =>
    rcases sentry_cases text with ⟨hs, -⟩ | ⟨c, cs, hs, -, -⟩
    · obtain ⟨rfl, rfl⟩ : [] = word ∧ [] = rest := by simpa [readWord, hs] using h
      exact .inr ⟨[], rfl⟩
    · simp [readWord, hs] at h

/-- The extraction of a number finds one, or fails on a text that does not begin with one. -/
theorem readInt_cases (old : Int32) (text : List Char) :
    (∃ v rest, readInt old ⟨text, false⟩ = (v, ⟨rest, false⟩) ∧ IntText text v rest) ∨
      ∃ v rest, readInt old ⟨text, false⟩ = (v, ⟨rest, true⟩) ∧
        ∀ v rest, ¬ IntText text v rest := by
  rcases h : readInt old ⟨text, false⟩ with ⟨v, rest, fail⟩
  cases fail with
  | false => exact .inl ⟨v, rest, rfl, readInt_iff.mp h⟩
  | true =>
    refine .inr ⟨v, rest, rfl, fun v' rest' htext => ?_⟩
    rw [readInt_iff.mpr htext] at h
    cases h

end Extraction

end Guillemot
