import Mathlib.Tactic.SplitIfs
import ThingyAccel.EmptyFifo

/-!
The FIFO read of src/ncsFiles/adxl362/adxl362.c: a burst of 1020 bytes becomes
510 values in the driver's data, from where `adxl362_fifo_get` copies them.
-/
namespace ThingyAccel.Adxl362

open EmptyFifo

structure SpiFailure where
  code : Int
  negative : code < 0

/-- A FIFO burst: words of two bytes, low byte first, with a tag in bits 15 and 14
and data whose bits 13 and 12 are both the sign. -/
structure Burst where
  bytes : List UInt8
  count : bytes.length = 1020
  extended : ∀ index high, bytes[2 * index + 1]? = some high →
    high.toNat.testBit 5 = high.toNat.testBit 4

/-- `fifo[i] = ((buf[conv_i+1] & 0x3f) << 8) | buf[conv_i]`. -/
def fifoWord (low high : UInt8) : UInt16 := (high &&& 0x3f).toUInt16 <<< 8 ||| low.toUInt16

/-- `((fifo[i] & 0x3000) << 2) | fifo[i]` as the `int16_t` it is assigned to. -/
def accValue (fifo : UInt16) : Int16 := ((fifo &&& 0x3000) <<< 2 ||| fifo).toInt16

def convert : List UInt8 → List Int16
  | low :: high :: rest => accValue (fifoWord low high) :: convert rest
  | _ => []

theorem convert_length (bytes : List UInt8) : (convert bytes).length = bytes.length / 2 := by
  induction bytes using convert.induct with
  | case1 low high rest ih =>
      simp only [convert, List.length_cons, ih]
      omega
  | case2 bytes short =>
      match bytes, short with
      | [], _ => rfl
      | [low], _ => simp [convert]
      | low :: high :: rest, short => exact (short low high rest rfl).elim

def adxl362SampleFetch (spi : Except SpiFailure Burst) (data : Samples) : Int × Samples :=
  match spi with
  | .error failure => (failure.code, data)
  | .ok burst => (0, ⟨convert burst.bytes, by rw [convert_length, burst.count]; rfl⟩)

def adxl362FifoGet (data : Samples) : Int × Samples := (0, data)

def dataValue (low high : UInt8) : Int :=
  let data := 256 * (high.toNat % 64) + low.toNat
  if data < 2 ^ 13 then data else data - 2 ^ 14

def Burst.value (burst : Burst) (index : Nat) : Int :=
  dataValue (burst.bytes.getD (2 * index) 0) (burst.bytes.getD (2 * index + 1) 0)

theorem high_part (high : UInt8) (sign : high.toNat.testBit 5 = high.toNat.testBit 4) :
    (((high &&& 0x3f).toUInt16 <<< 8 &&& 0x3000) <<< 2 ||| (high &&& 0x3f).toUInt16 <<< 8).toNat =
      2 ^ 8 * (high.toNat % 64 + if high.toNat % 64 < 32 then 0 else 192) := by
  -- All 256 high bytes are tried.
  have every : ∀ value : Fin 256, value.val.testBit 5 = value.val.testBit 4 →
      (((UInt8.ofNat value &&& 0x3f).toUInt16 <<< 8 &&& 0x3000) <<< 2 |||
        (UInt8.ofNat value &&& 0x3f).toUInt16 <<< 8).toNat =
        2 ^ 8 * (value.val % 64 + if value.val % 64 < 32 then 0 else 192) := by
    decide +kernel
  have here := every ⟨high.toNat, high.toNat_lt⟩ sign
  simpa using here

theorem low_unmasked (low : UInt8) : low.toUInt16 &&& 0x3000 = 0 := by
  have every : ∀ value : Fin 256, (UInt8.ofNat value).toUInt16 &&& 0x3000 = 0 := by decide +kernel
  have here := every ⟨low.toNat, low.toNat_lt⟩
  simpa using here

theorem masked_or (left right mask : UInt16) :
    (left ||| right) &&& mask = left &&& mask ||| right &&& mask := by
  apply UInt16.toBitVec_inj.mp
  ext index inside
  simp [Bool.and_or_distrib_right]

theorem signed_word (word : UInt16) :
    word.toInt16.toInt = if word.toNat < 2 ^ 15 then (word.toNat : Int) else word.toNat - 2 ^ 16 := by
  have bits : word.toInt16.toInt = word.toBitVec.toInt := rfl
  rw [bits, BitVec.toInt_eq_toNat_cond, UInt16.toNat_toBitVec]
  split_ifs <;> omega

theorem acc_value_exact (low high : UInt8) (sign : high.toNat.testBit 5 = high.toNat.testBit 4) :
    (accValue (fifoWord low high)).toInt = dataValue low high := by
  have small := low.toNat_lt
  have split : (fifoWord low high &&& 0x3000) <<< 2 ||| fifoWord low high =
      (((high &&& 0x3f).toUInt16 <<< 8 &&& 0x3000) <<< 2 ||| (high &&& 0x3f).toUInt16 <<< 8) |||
        low.toUInt16 := by
    rw [fifoWord, masked_or, low_unmasked, UInt16.or_zero, ← UInt16.or_assoc]
  -- The low byte lies beside the masked bits, so the parts add up.
  have word : ((fifoWord low high &&& 0x3000) <<< 2 ||| fifoWord low high).toNat =
      2 ^ 8 * (high.toNat % 64 + if high.toNat % 64 < 32 then 0 else 192) + low.toNat := by
    rw [split, UInt16.toNat_or, high_part high sign, UInt8.toNat_toUInt16]
    exact (Nat.two_pow_add_eq_or_of_lt (by omega) _).symm
  rw [accValue, dataValue, signed_word, word]
  have six : high.toNat % 64 < 64 := Nat.mod_lt _ (by decide)
  by_cases positive : high.toNat % 64 < 32
  · simp only [positive, ↓reduceIte, Nat.add_zero]
    split_ifs <;> omega
  · simp only [positive, ↓reduceIte]
    split_ifs <;> omega

end ThingyAccel.Adxl362
