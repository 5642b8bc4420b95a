import Mathlib.Algebra.Ring.Nat
import Mathlib.Data.List.Basic

/-! Canonical CBOR: heads of the shortest form, and the items that are built of
integers and arrays of definite length. -/
namespace ThingyAccel.Cbor

def bigEndian : Nat → Nat → List UInt8
  | 0, _ => []
  | count + 1, value => UInt8.ofNat (value / 256 ^ count % 256) :: bigEndian count value

/-- The initial byte of an item and the argument that follows it. -/
def head (major argument : Nat) : List UInt8 :=
  if argument < 24 then [UInt8.ofNat (32 * major + argument)]
  else if argument < 2 ^ 8 then UInt8.ofNat (32 * major + 24) :: bigEndian 1 argument
  else if argument < 2 ^ 16 then UInt8.ofNat (32 * major + 25) :: bigEndian 2 argument
  else if argument < 2 ^ 32 then UInt8.ofNat (32 * major + 26) :: bigEndian 4 argument
  else UInt8.ofNat (32 * major + 27) :: bigEndian 8 argument

def headLength (argument : Nat) : Nat :=
  if argument < 24 then 1
  else if argument < 2 ^ 8 then 2
  else if argument < 2 ^ 16 then 3
  else if argument < 2 ^ 32 then 5
  else 9

/-- A negative integer has its distance below minus one as the argument. -/
def integer : Int → List UInt8
  | .ofNat value => head 0 value
  | .negSucc below => head 1 below

def array (elements : List (List UInt8)) : List UInt8 := head 4 elements.length ++ elements.flatten

theorem big_endian_length (count value : Nat) : (bigEndian count value).length = count := by
  induction count with
  | zero => rfl
  | succ count ih => simp [bigEndian, ih]

theorem head_length (major argument : Nat) : (head major argument).length = headLength argument := by
  unfold head headLength
  split
  · rfl
  · repeat' split
    all_goals simp [big_endian_length]

def magnitude : Int → Nat
  | .ofNat value => value
  | .negSucc below => below

theorem integer_length (value : Int) : (integer value).length = headLength (magnitude value) := by
  cases value with
  | ofNat value => exact head_length 0 value
  | negSucc below => exact head_length 1 below

theorem array_length (elements : List (List UInt8)) :
    (array elements).length =
      headLength elements.length + (elements.map List.length).sum := by
  rw [array, List.length_append, head_length, List.length_flatten]

end ThingyAccel.Cbor
