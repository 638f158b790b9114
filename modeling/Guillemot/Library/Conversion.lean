import Guillemot.Library.Extraction
import Mathlib.Algebra.Order.Field.Rat
import Mathlib.Tactic.FieldSimp
import Mathlib.Tactic.NormNum
import Mathlib.Tactic.Ring

/-!
# Conversions by a format

`sscanf` with the conversions `%f` and `%d` and with characters that the text must have, for texts
without letters: then a number is a sign, digits, and a point among them. An `int` is a number here;
nothing is said about one that does not fit.

`Reads` says that a text is read by a format, whatever follows that is no digit. A number that is
written with two digits behind its point is read as it is (`Decimal.reads`), as is one without a
point (`reads_toDigits`), and a text of several parts by the formats of its parts (`Reads.append`).
-/

namespace Guillemot

namespace Conversion

open Extraction

/-- A part of a format: `%f`, `%d`, or a character. -/
inductive Directive where
  | float
  | int
  | literal (c : Char)
deriving DecidableEq, Repr

/-- What is assigned to a variable. -/
inductive Value where
  | float (q : ℚ)
  | int (n : ℤ)
deriving DecidableEq

/-- The part behind a point, if there is one, and what is left of the text. -/
def splitPoint : List Char → List Char × List Char
  | '.' :: rest => (rest.takeWhile Char.isDigit, rest.dropWhile Char.isDigit)
  | rest => ([], rest)

/-- `%f`. -/
def scanFloat (text : List Char) : Option (ℚ × List Char) :=
  let signed := splitSign (text.dropWhile isSpace)
  let whole := signed.2.takeWhile Char.isDigit
  let point := splitPoint (signed.2.dropWhile Char.isDigit)
  if whole ++ point.1 = [] then none
  else some ((numeral signed.1 (whole ++ point.1) : ℚ) / 10 ^ point.1.length, point.2)

/-- `%d`. -/
def scanInt (text : List Char) : Option (ℤ × List Char) :=
  let signed := splitSign (text.dropWhile isSpace)
  let digits := signed.2.takeWhile Char.isDigit
  if digits = [] then none
  else some (numeral signed.1 digits, signed.2.dropWhile Char.isDigit)

/-- `sscanf`: what is assigned to the variables, until something does not fit the format. -/
def sscanf : List Directive → List Char → List Value
  | [], _ => []
  | .float :: format, text =>
    match scanFloat text with
    | some (q, rest) => .float q :: sscanf format rest
    | none => []
  | .int :: format, text =>
    match scanInt text with
    | some (n, rest) => .int n :: sscanf format rest
    | none => []
  | .literal c :: format, text =>
    match text with
    | c' :: rest => if c' = c then sscanf format rest else []
    | [] => []

/-- A number with two digits behind its point. -/
structure Decimal where
  negative : Bool
  hundredths : ℕ
deriving DecidableEq, Repr

/-- How it is written out. -/
def Decimal.text (x : Decimal) : List Char :=
  (if x.negative then ['-'] else []) ++ (Nat.toDigits 10 (x.hundredths / 100) ++
    '.' :: [(x.hundredths / 10 % 10).digitChar, (x.hundredths % 10).digitChar])

/-- The number. -/
def Decimal.value (x : Decimal) : ℚ :=
  (if x.negative then -(x.hundredths : ℚ) else x.hundredths) / 100

/-- A text is read by a format, if no digit follows. -/
def Reads (format : List Directive) (text : List Char) (values : List Value) : Prop :=
  ∀ format' rest, (∀ c ∈ rest.head?, c.isDigit = false) →
    sscanf (format ++ format') (text ++ rest) = values ++ sscanf format' rest

variable {format format' : List Directive} {text text' : List Char} {values values' : List Value}

/-- A text in two parts, of which the second one begins with no digit. -/
theorem Reads.append (h : Reads format text values) (h' : Reads format' text' values')
    (hhead : ∀ c ∈ text'.head?, c.isDigit = false) (hne : text' ≠ []) :
    Reads (format ++ format') (text ++ text') (values ++ values') := by
  intro next rest hrest
  obtain ⟨c, text', rfl⟩ := List.exists_cons_of_ne_nil hne
  rw [List.append_assoc, List.append_assoc, h _ _ (by simpa using hhead), h' next rest hrest,
    List.append_assoc]

/-- All of a text is read. -/
theorem Reads.eq (h : Reads format text values) : sscanf format text = values := by
  have hall := h [] [] (by simp)
  rwa [List.append_nil, List.append_nil, sscanf, List.append_nil] at hall

/-- Digits of a number, in a text. -/
theorem digits_toDigits (n : ℕ) :
    Nat.toDigits 10 n ≠ [] ∧ ∀ c ∈ Nat.toDigits 10 n, c.isDigit = true :=
  ⟨Nat.toDigits_ne_nil, fun _ hc => Nat.isDigit_of_mem_toDigits (by decide) (by decide) hc⟩

/-- Nothing is skipped before a digit. -/
theorem dropWhile_isSpace {digits rest : List Char} (hne : digits ≠ [])
    (hall : ∀ c ∈ digits, c.isDigit = true) :
    (digits ++ rest).dropWhile isSpace = digits ++ rest := by
  obtain ⟨d, ds, rfl⟩ := List.exists_cons_of_ne_nil hne
  have hd : isSpace d = false := isSpace_of_isDigit (hall d List.mem_cons_self)
  simp [hd]

/-- A number without a point is read. -/
theorem reads_toDigits (n : ℕ) : Reads [.int] (Nat.toDigits 10 n) [.int n] := by
  intro next rest hrest
  obtain ⟨hne, hall⟩ := digits_toDigits n
  have hscan : scanInt (Nat.toDigits 10 n ++ rest) = some ((n : ℤ), rest) := by
    unfold scanInt
    rw [dropWhile_isSpace hne hall, splitSign_digits hne hall]
    simp only [takeWhile_append hall hrest, dropWhile_append hall hrest, if_neg hne, numeral,
      Bool.false_eq_true, if_false, Nat.ofDigitChars_ten_toDigits]
  rw [List.singleton_append, sscanf, hscan]
  rfl

/-- The number that the digits of a decimal number stand for. -/
theorem ofDigitChars_decimal (h : ℕ) :
    Nat.ofDigitChars 10 (Nat.toDigits 10 (h / 100) ++
      [(h / 10 % 10).digitChar, (h % 10).digitChar]) 0 = h := by
  rw [Nat.ofDigitChars_append, Nat.ofDigitChars_ten_toDigits,
    Nat.ofDigitChars_cons_digitChar_of_lt_ten (Nat.mod_lt _ (by decide)),
    Nat.ofDigitChars_cons_digitChar_of_lt_ten (Nat.mod_lt _ (by decide)), Nat.ofDigitChars_nil]
  omega

/-- A decimal number is read. -/
theorem Decimal.reads (x : Decimal) : Reads [.float] x.text [.float x.value] := by
  intro next rest hrest
  obtain ⟨hne, hall⟩ := digits_toDigits (x.hundredths / 100)
  let whole := Nat.toDigits 10 (x.hundredths / 100)
  let part := [(x.hundredths / 10 % 10).digitChar, (x.hundredths % 10).digitChar]
  have hpart : ∀ c ∈ part, c.isDigit = true := by
    intro c hc
    rcases List.mem_cons.mp hc with rfl | hc
    · rw [Nat.isDigit_digitChar]
      exact decide_eq_true (Nat.mod_lt _ (by decide))
    · rw [List.mem_singleton.mp hc, Nat.isDigit_digitChar]
      exact decide_eq_true (Nat.mod_lt _ (by decide))
  have hpoint : ∀ c ∈ ('.' :: (part ++ rest)).head?, c.isDigit = false := by simp
  have htake : (whole ++ '.' :: (part ++ rest)).takeWhile Char.isDigit = whole :=
    takeWhile_append hall hpoint
  have hdrop : (whole ++ '.' :: (part ++ rest)).dropWhile Char.isDigit = '.' :: (part ++ rest) :=
    dropWhile_append hall hpoint
  have hsplit : splitPoint ('.' :: (part ++ rest)) = (part, rest) :=
    Prod.ext (takeWhile_append hpart hrest) (dropWhile_append hpart hrest)
  have hvalue : Nat.ofDigitChars 10 (whole ++ part) 0 = x.hundredths :=
    ofDigitChars_decimal x.hundredths
  have hnumber (negative : Bool) :
      (numeral negative (whole ++ part) : ℚ) / 10 ^ part.length =
        (if negative then -(x.hundredths : ℚ) else x.hundredths) / 100 := by
    rw [numeral, hvalue]
    cases negative <;> norm_num [part]
  have hunsigned (signed : List Char) (negative : Bool)
      (h : splitSign signed = (negative, whole ++ '.' :: (part ++ rest)))
      (hskip : signed.dropWhile isSpace = signed) :
      scanFloat signed =
        some ((if negative then -(x.hundredths : ℚ) else x.hundredths) / 100, rest) := by
    have hsome : whole ++ part ≠ [] := fun h => hne (List.append_eq_nil_iff.mp h).1
    unfold scanFloat
    dsimp only
    rw [hskip, h]
    dsimp only
    rw [htake, hdrop, hsplit, if_neg hsome, hnumber]
  have hscan : scanFloat (x.text ++ rest) = some (x.value, rest) := by
    obtain ⟨negative, hundredths⟩ := x
    cases negative with
    | false =>
      refine hunsigned _ false ?_ ?_
      · show splitSign (([] ++ (whole ++ '.' :: part)) ++ rest) = _
        rw [List.nil_append, List.append_assoc, List.cons_append]
        exact splitSign_digits hne hall
      · show (([] ++ (whole ++ '.' :: part)) ++ rest).dropWhile isSpace =
          ([] ++ (whole ++ '.' :: part)) ++ rest
        rw [List.nil_append, List.append_assoc]
        exact dropWhile_isSpace hne hall
    | true =>
      refine hunsigned _ true ?_ rfl
      show (true, (whole ++ '.' :: part) ++ rest) = _
      rw [List.append_assoc, List.cons_append]
  rw [List.singleton_append, sscanf, hscan]
  rfl

/-- Parts with a character between them that is no digit are read by the formats of the parts with
this character between them. -/
theorem reads_intersperse {c : Char} (hc : c.isDigit = false)
    (parts : List (Directive × List Char × Value))
    (h : ∀ p ∈ parts, Reads [p.1] p.2.1 [p.2.2]) :
    Reads ((parts.map fun p => p.1).intersperse (.literal c))
      ((parts.map fun p => p.2.1).intersperse [c]).flatten (parts.map fun p => p.2.2) := by
  induction parts with
  | nil => exact fun _ _ _ => rfl
  | cons p parts ih =>
    obtain ⟨hp, hparts⟩ := List.forall_mem_cons.mp h
    cases parts with
    | nil =>
      show Reads [p.1] (p.2.1 ++ []) [p.2.2]
      rw [List.append_nil]
      exact hp
    | cons q parts =>
      have hrest := ih hparts
      have hliteral : Reads (.literal c :: ((q :: parts).map fun p => p.1).intersperse (.literal c))
          (c :: (((q :: parts).map fun p => p.2.1).intersperse [c]).flatten)
          ((q :: parts).map fun p => p.2.2) := by
        intro format' rest hrest'
        rw [List.cons_append, List.cons_append, sscanf, if_pos rfl]
        exact hrest format' rest hrest'
      exact hp.append hliteral (by simpa using hc) (List.cons_ne_nil _ _)

/-! ## The characters of numbers -/

/-- A character of a number that is written out. -/
def IsNumeric (c : Char) : Prop := c.isDigit = true ∨ c = '-' ∨ c = '.'

theorem isNumeric_toDigits (n : ℕ) : ∀ c ∈ Nat.toDigits 10 n, IsNumeric c :=
  fun c hc => .inl ((digits_toDigits n).2 c hc)

theorem Decimal.isNumeric (x : Decimal) : ∀ c ∈ x.text, IsNumeric c := by
  intro c hc
  rcases List.mem_append.mp hc with hsign | hc
  · split_ifs at hsign
    · exact .inr (.inl (List.mem_singleton.mp hsign))
    · cases hsign
  · rcases List.mem_append.mp hc with hwhole | hc
    · exact isNumeric_toDigits _ c hwhole
    · rcases List.mem_cons.mp hc with hpoint | hc
      · exact .inr (.inr hpoint)
      · refine .inl ?_
        have hdigit (n : ℕ) : (n % 10).digitChar.isDigit = true := by
          rw [Nat.isDigit_digitChar]
          exact decide_eq_true (Nat.mod_lt _ (by decide))
        rcases List.mem_cons.mp hc with rfl | hc
        · exact hdigit _
        · rw [List.mem_singleton.mp hc]
          exact hdigit _

end Conversion

end Guillemot
