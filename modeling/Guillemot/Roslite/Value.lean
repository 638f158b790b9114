import Guillemot.Library.Dict
import Guillemot.Library.Raising
import Mathlib.Data.Rat.Defs

/-!
# Messages

The values that `get_message` can return, and what the nodes do with them: whether a value is true,
whether it can be a key of a dictionary, which values `==` takes for the same key, and `get` on a
message. `True`, `1` and `1.0` are the same key; a dictionary, or a tuple with one in it, is no key;
and a number that is not a number is a key that is not found again. Finite floats are rational
numbers. A message whose maps have keys that are no keys is not decoded.

Packing a value that was decoded, and logging, do not fail.
-/

namespace Guillemot.Roslite

/-! ## Values -/

/-- A `float`. -/
inductive PyFloat where
  | finite (q : ℚ)
  | infinite (negative : Bool)
  | nan
deriving DecidableEq, Repr

/-- A value that was decoded, with `use_list=False`. The entries of a map are in the order in which
they were sent. -/
inductive Value where
  | nil
  | bool (b : Bool)
  | int (n : ℤ)
  | float (x : PyFloat)
  | str (s : String)
  | bytes (b : List UInt8)
  | tuple (items : List Value)
  | map (entries : List (Value × Value))
  | ext (code : ℤ) (data : List UInt8)
deriving Repr

/-- What `==` compares of a value that can be a key. A tuple is the list of its items. -/
inductive Key where
  | nil
  | number (q : ℚ)
  | infinite (negative : Bool)
  | str (s : String)
  | bytes (b : List UInt8)
  | emptyTuple
  | item (head tail : Key)
deriving DecidableEq, Repr

/-- `bool`. -/
def Value.truthy : Value → Bool
  | .nil => false
  | .bool b => b
  | .int n => n ≠ 0
  | .float x => x ≠ .finite 0
  | .str s => s ≠ ""
  | .bytes b => !b.isEmpty
  | .tuple items => !items.isEmpty
  | .map entries => !entries.isEmpty
  | .ext _ _ => true

mutual

/-- `hash` returns. -/
def Value.hashable : Value → Bool
  | .tuple items => Value.allHashable items
  | .map _ => false
  | _ => true

/-- `hash` returns for every item. -/
def Value.allHashable : List Value → Bool
  | [] => true
  | v :: vs => v.hashable && Value.allHashable vs

end

mutual

/-- What `==` compares of a value; `none` where it is the same as no other. -/
def Value.key : Value → Option Key
  | .nil => some .nil
  | .bool b => some (.number b.toNat)
  | .int n => some (.number n)
  | .float (.finite q) => some (.number q)
  | .float (.infinite negative) => some (.infinite negative)
  | .float .nan => none
  | .str s => some (.str s)
  | .bytes b => some (.bytes b)
  | .tuple items => Value.itemsKey items
  | .map _ => none
  | .ext code data => some (.item (.number code) (.item (.bytes data) .emptyTuple))

/-- What `==` compares of the items of a tuple. -/
def Value.itemsKey : List Value → Option Key
  | [] => some .emptyTuple
  | v :: vs => do
    let head ← v.key
    let tail ← Value.itemsKey vs
    pure (.item head tail)

end

/-- `==` between a value and another one that was decoded later, one of which can be a key. -/
def Value.same (v w : Value) : Bool :=
  match v.key, w.key with
  | some a, some b => a = b
  | _, _ => false

theorem same_iff {v w : Value} : v.same w = true ↔ ∃ k, v.key = some k ∧ w.key = some k := by
  unfold Value.same
  rcases v.key with _ | a
  · simp
  · rcases w.key with _ | b
    · simp
    · simp [eq_comm]

theorem same_symm {v w : Value} (h : v.same w = true) : w.same v = true := by
  obtain ⟨k, hv, hw⟩ := same_iff.mp h
  exact same_iff.mpr ⟨k, hw, hv⟩

theorem same_trans {u v w : Value} (huv : u.same v = true) (hvw : v.same w = true) :
    u.same w = true := by
  obtain ⟨k, hu, hv⟩ := same_iff.mp huv
  obtain ⟨k', hv', hw⟩ := same_iff.mp hvw
  rw [hv] at hv'
  exact same_iff.mpr ⟨k, hu, Option.some.inj hv' ▸ hw⟩

/-! ## Dictionaries with values as keys -/

/-- A `dict`. -/
abbrev Table (β : Type) := List (Value × β)

/-- `table.get(key)`, where `key` has a hash. -/
def Table.get {β : Type} (table : Table β) (key : Value) : Option β :=
  Dict.get Value.same table key

/-- `table[key] = value`, where `key` has a hash. -/
def Table.insert {β : Type} (table : Table β) (key : Value) (value : β) : Table β :=
  Dict.insert Value.same table key value

/-- `message.get(key)` for one of the integers in `C`; of entries with the same key, a map has the
last one. -/
def field (entries : List (Value × Value)) (key : ℤ) : Value :=
  (Table.get entries.reverse (.int key)).getD .nil

/-! ## Exceptions -/

/-- What can be raised. -/
inductive Exception where
  | attributeError
  | typeError
  | keyError
deriving DecidableEq, Repr

/-- `message.get`, which only a `dict` has. -/
def getAttribute {σ : Type} : Value → EStateM Exception σ (List (Value × Value))
  | .map entries => pure entries
  | _ => throw .attributeError

/-- `hash(key)`, before a dictionary is looked up. -/
def hash {σ : Type} (key : Value) : EStateM Exception σ Unit :=
  if key.hashable then pure () else throw .typeError

/-! ## `_roslite.py` -/

namespace C

/-- `C.REQUEST`. -/
def REQUEST : ℤ := 1

/-- `C.CHANNEL`. -/
def CHANNEL : ℤ := 2

/-- `C.SERVICE`. -/
def SERVICE : ℤ := 3

/-- `C.INTERFACE`. -/
def INTERFACE : ℤ := 4

/-- `C.PID`. -/
def PID : ℤ := 5

/-- `C.KEY`. -/
def KEY : ℤ := 2

/-- `C.VALUE`. -/
def VALUE : ℤ := 3

/-- `C.LOOKUP_CHANNEL`. -/
def LOOKUP_CHANNEL : ℤ := 1

/-- `C.LOOKUP_SERVICE`. -/
def LOOKUP_SERVICE : ℤ := 2

/-- `C.PUB`. -/
def PUB : ℤ := 1

/-- `C.SUB`. -/
def SUB : ℤ := 2

/-- `C.REQ`. -/
def REQ : ℤ := 3

/-- `C.REP`. -/
def REP : ℤ := 4

/-- `C.SET`. -/
def SET : ℤ := 1

/-- `C.GET`. -/
def GET : ℤ := 2

end C

end Guillemot.Roslite
