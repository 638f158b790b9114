import Mathlib.Data.Rat.Defs
import Guillemot.StateMachine.ClassFile

/-!
# Values of the modelled program

The values that messages carry and that triggers compare them with: integers, floats, strings and
an empty image record. Floats are a parameter with the operations that the program uses
(`PythonFloat`). Values of different types can be compared in this version of the language: a number
is below everything else, and otherwise the names of the types decide.
-/

namespace Guillemot.StateMachine

/-- The exceptions that the modelled functions raise. -/
inductive Raised where
  | attributeError
  | indexError
  | nameError
  | typeError
  | valueError
  /-- What `publish` raises when a message does not fit its type. -/
  | serializationError
deriving DecidableEq, Repr

/-- The operations on floats that the program uses. -/
class PythonFloat (F : Type) where
  /-- `float` of a text, unless it raises. -/
  ofText : Text → Option F
  /-- `float` of an integer. -/
  ofInt : ℤ → F
  /-- `str`. -/
  toText : F → Text
  add : F → F → F
  sub : F → F → F
  mul : F → F → F
  div : F → F → F
  lt : F → F → Bool
  /-- A float is less than an integer. -/
  ltInt : F → ℤ → Bool
  /-- An integer is less than a float. -/
  intLt : ℤ → F → Bool
  /-- A float is equal to an integer. -/
  eqInt : F → ℤ → Bool
  /-- The float that `.1` is read as. -/
  tenth : F

export PythonFloat (ofText ofInt tenth)

/-- The number that digits say, unless there are none or other characters among them. -/
def parseDigits (text : Text) : Option ℕ :=
  if text ≠ [] ∧ text.all Char.isDigit then
    some (text.foldl (fun n c => 10 * n + (c.toNat - '0'.toNat)) 0)
  else none

/-- `int` of a text, unless it raises. -/
def parseInt (text : Text) : Option ℤ :=
  match strip text with
  | '-' :: digits => (parseDigits digits).map fun n => -(n : ℤ)
  | '+' :: digits => (parseDigits digits).map Int.ofNat
  | digits => (parseDigits digits).map Int.ofNat

example : parseInt "-12".toList = some (-12) ∧ parseInt "1.5".toList = none := by decide

/-- Exact numbers in place of floats. Only whole numbers are read. -/
instance : PythonFloat ℚ where
  ofText text := (parseInt text).map fun n => (n : ℚ)
  ofInt n := n
  toText x := if x.den = 1 then (toString x.num).toList ++ ".0".toList else (toString x).toList
  add x y := x + y
  sub x y := x - y
  mul x y := x * y
  div x y := x / y
  lt x y := decide (x < y)
  ltInt x n := decide (x < n)
  intLt n x := decide ((n : ℚ) < x)
  eqInt x n := decide (x = n)
  tenth := 1 / 10

/-- The values of messages and triggers. -/
inductive Value (F : Type) where
  | int (n : ℤ)
  | float (x : F)
  | str (text : Text)
  /-- `ImgRecObject()`. -/
  | img
deriving DecidableEq, Repr

namespace Value

variable {F : Type} [PythonFloat F]

/-- `str` of a value, where `imgText` is the text of an empty image record. -/
def toText (imgText : Text) : Value F → Text
  | int n => (toString n).toList
  | float x => PythonFloat.toText x
  | str text => text
  | img => imgText

/-- `<`. Numbers are below strings and records, and the type name `ImgRecObject` is below `str`. -/
def lt : Value F → Value F → Bool
  | int m, int n => decide (m < n)
  | int m, float y => PythonFloat.intLt m y
  | float x, int n => PythonFloat.ltInt x n
  | float x, float y => PythonFloat.lt x y
  | str s, str t => decide (s < t)
  | int _, _ => true
  | float _, _ => true
  | img, str _ => true
  | _, _ => false

/-- `float(value)`. -/
def toFloat : Value F → Except Raised F
  | int n => .ok (ofInt n)
  | float x => .ok x
  | str text =>
    match ofText text with
    | some x => .ok x
    | none => .error .valueError
  | img => .error .typeError

/-- `value + epsilon` and `value - epsilon`, of which only numbers are capable. -/
def spread : Value F → Except Raised (Value F × Value F)
  | int n => .ok (float (PythonFloat.add (ofInt n) tenth), float (PythonFloat.sub (ofInt n) tenth))
  | float x => .ok (float (PythonFloat.add x tenth), float (PythonFloat.sub x tenth))
  | _ => .error .typeError

/-- `value == n`. Strings and records are not equal to numbers. -/
def eqInt : Value F → ℤ → Bool
  | int m, n => m == n
  | float x, n => PythonFloat.eqInt x n
  | _, _ => false

/-- Whether a value is the given string. -/
def isText (text : String) : Value F → Bool
  | str t => t == text.toList
  | _ => false

end Value

end Guillemot.StateMachine
