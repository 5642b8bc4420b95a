import ThingyAccel.Cbor
import ThingyAccel.Formats

/-! Reading of canonical CBOR: heads, integers, and the head of an array. A head that is
longer than its argument needs is refused. -/
namespace ThingyAccel.CborFormats

open Cbor Formats

def fromBigEndian (bytes : List UInt8) : Nat :=
  bytes.foldl (fun value byte => 256 * value + byte.toNat) 0

section Arguments

theorem fold_digits (bytes : List UInt8) (start : Nat) :
    bytes.foldl (fun value byte => 256 * value + byte.toNat) start =
      start * 256 ^ bytes.length + fromBigEndian bytes := by
  induction bytes generalizing start with
  | nil => simp [fromBigEndian]
  | cons byte rest ih =>
      rw [fromBigEndian, List.foldl_cons, List.foldl_cons, ih, ih (256 * 0 + byte.toNat),
        List.length_cons, Nat.pow_succ, Nat.mul_zero, Nat.zero_add, Nat.add_mul, Nat.add_assoc,
        Nat.mul_comm 256 start, Nat.mul_assoc, Nat.mul_comm 256]

theorem from_big_endian_cons (byte : UInt8) (rest : List UInt8) :
    fromBigEndian (byte :: rest) = byte.toNat * 256 ^ rest.length + fromBigEndian rest := by
  rw [fromBigEndian, List.foldl_cons, fold_digits, Nat.mul_zero, Nat.zero_add]

theorem from_big_endian_lt (bytes : List UInt8) : fromBigEndian bytes < 256 ^ bytes.length := by
  induction bytes with
  | nil => exact Nat.one_pos
  | cons byte rest ih =>
      have digit : byte.toNat + 1 ≤ 256 := byte.toNat_lt
      have whole := Nat.mul_le_mul_right (256 ^ rest.length) digit
      rw [from_big_endian_cons, List.length_cons, Nat.pow_succ, Nat.mul_comm _ 256]
      rw [Nat.succ_mul] at whole
      omega

theorem big_endian_value (count value : Nat) :
    fromBigEndian (bigEndian count value) = value % 256 ^ count := by
  induction count with
  | zero => rw [Nat.pow_zero, Nat.mod_one]; rfl
  | succ count ih =>
      have digit : (UInt8.ofNat (value / 256 ^ count % 256)).toNat = value / 256 ^ count % 256 :=
        UInt8.toNat_ofNat_of_lt' (Nat.mod_lt _ (by decide))
      rw [bigEndian, from_big_endian_cons, big_endian_length, ih, digit, Nat.pow_succ,
        Nat.mod_mul, Nat.add_comm, Nat.mul_comm]

/-- Only the low digits of a value are written. -/
theorem big_endian_high (count high low : Nat) :
    bigEndian count (high * 256 ^ count + low) = bigEndian count low := by
  induction count generalizing high with
  | zero => rfl
  | succ count ih =>
      have shifted : high * 256 ^ (count + 1) + low = high * 256 * 256 ^ count + low := by
        rw [Nat.pow_succ, Nat.mul_assoc, Nat.mul_comm (256 ^ count) 256]
      have positive : 0 < 256 ^ count := Nat.pow_pos (by decide)
      have digit : (high * 256 * 256 ^ count + low) / 256 ^ count % 256 =
          low / 256 ^ count % 256 := by
        rw [Nat.add_comm, Nat.add_mul_div_right _ _ positive, Nat.mul_comm high 256,
          Nat.add_mul_mod_self_left]
      rw [bigEndian, bigEndian, shifted, digit, ih]

theorem big_endian_read (bytes : List UInt8) :
    bigEndian bytes.length (fromBigEndian bytes) = bytes := by
  induction bytes with
  | nil => rfl
  | cons byte rest ih =>
      have positive : 0 < 256 ^ rest.length := Nat.pow_pos (by decide)
      have below := from_big_endian_lt rest
      have digit : (byte.toNat * 256 ^ rest.length + fromBigEndian rest) / 256 ^ rest.length % 256 =
          byte.toNat := by
        rw [Nat.add_comm, Nat.add_mul_div_right _ _ positive, Nat.div_eq_of_lt below, Nat.zero_add,
          Nat.mod_eq_of_lt byte.toNat_lt]
      rw [List.length_cons, bigEndian, from_big_endian_cons, digit, big_endian_high, ih,
        UInt8.ofNat_toNat]

end Arguments

section Heads

def readHead : List UInt8 → Option ((Nat × Nat) × List UInt8)
  | [] => none
  | initial :: rest =>
      let major := initial.toNat / 32
      let information := initial.toNat % 32
      if information < 24 then some ((major, information), rest)
      else if 28 ≤ information then none
      else
        let width := 2 ^ (information - 24)
        let argument := fromBigEndian (rest.take width)
        -- The shortest head for the argument has to be as long as this one.
        if width ≤ rest.length ∧ headLength argument = 1 + width then
          some ((major, argument), rest.drop width)
        else none

/-- The head of an argument that does not fit into the initial byte. -/
structure LongHead (argument information : Nat) : Prop where
  least : 24 ≤ information
  most : information < 28
  length : headLength argument = 1 + 2 ^ (information - 24)
  below : argument < 256 ^ 2 ^ (information - 24)
  spelled : ∀ major, head major argument =
    UInt8.ofNat (32 * major + information) :: bigEndian (2 ^ (information - 24)) argument

theorem long_head {argument : Nat} (long : 24 ≤ argument) (small : argument < 2 ^ 64) :
    ∃ information, LongHead argument information := by
  have large : ¬ argument < 24 := Nat.not_lt.mpr long
  by_cases one : argument < 2 ^ 8
  · refine ⟨24, by decide, by decide, ?_, one, fun major => ?_⟩
    · rw [headLength, if_neg large, if_pos one]
      rfl
    · rw [head, if_neg large, if_pos one]
      rfl
  · by_cases two : argument < 2 ^ 16
    · refine ⟨25, by decide, by decide, ?_, two, fun major => ?_⟩
      · rw [headLength, if_neg large, if_neg one, if_pos two]
        rfl
      · rw [head, if_neg large, if_neg one, if_pos two]
        rfl
    · by_cases four : argument < 2 ^ 32
      · refine ⟨26, by decide, by decide, ?_, four, fun major => ?_⟩
        · rw [headLength, if_neg large, if_neg one, if_neg two, if_pos four]
          rfl
        · rw [head, if_neg large, if_neg one, if_neg two, if_pos four]
          rfl
      · refine ⟨27, by decide, by decide, ?_, small, fun major => ?_⟩
        · rw [headLength, if_neg large, if_neg one, if_neg two, if_neg four]
          rfl
        · rw [head, if_neg large, if_neg one, if_neg two, if_neg four]
          rfl

theorem short_head {argument : Nat} (short : argument < 24) (major : Nat) :
    head major argument = [UInt8.ofNat (32 * major + argument)] := if_pos short

theorem head_length_one {argument : Nat} : headLength argument = 1 ↔ argument < 24 := by
  rw [headLength]
  split
  · exact iff_of_true rfl ‹_›
  · rename_i long
    refine iff_of_false ?_ long
    repeat' split
    all_goals decide

theorem information_unique {argument information other : Nat} (long : LongHead argument information)
    (least : 24 ≤ other) (most : other < 28)
    (length : headLength argument = 1 + 2 ^ (other - 24)) : information = other := by
  have same := long.length.symm.trans length
  have exponent := Nat.pow_right_injective (Nat.le_refl 2) (Nat.add_left_cancel same)
  have from24 := long.least
  omega

theorem initial_byte {major information : Nat} (inside : major < 8) (small : information < 32) :
    (UInt8.ofNat (32 * major + information)).toNat = 32 * major + information := by
  have below : 32 * major + information < 256 := by omega
  exact UInt8.toNat_ofNat_of_lt' below

theorem read_head_write {major argument : Nat} (rest : List UInt8) (inside : major < 8)
    (small : argument < 2 ^ 64) :
    readHead (head major argument ++ rest) = some ((major, argument), rest) := by
  by_cases short : argument < 24
  · have initial := initial_byte inside (by omega : argument < 32)
    have parts : (32 * major + argument) / 32 = major ∧ (32 * major + argument) % 32 = argument := by
      omega
    rw [short_head short, List.singleton_append]
    simp only [readHead, initial, parts, short, ↓reduceIte]
  · obtain ⟨information, long⟩ := long_head (Nat.le_of_not_lt short) small
    have least := long.least
    have most := long.most
    have initial := initial_byte inside (by omega : information < 32)
    have parts : (32 * major + information) / 32 = major ∧
        (32 * major + information) % 32 = information := by
      omega
    have digits := big_endian_length (2 ^ (information - 24)) argument
    have value : fromBigEndian (bigEndian (2 ^ (information - 24)) argument) = argument := by
      rw [big_endian_value, Nat.mod_eq_of_lt long.below]
    have front : (bigEndian (2 ^ (information - 24)) argument ++ rest).take (2 ^ (information - 24)) =
        bigEndian (2 ^ (information - 24)) argument := List.take_left' digits
    have behind : (bigEndian (2 ^ (information - 24)) argument ++ rest).drop
        (2 ^ (information - 24)) = rest := List.drop_left' digits
    have enough : 2 ^ (information - 24) ≤
        (bigEndian (2 ^ (information - 24)) argument ++ rest).length := by
      rw [List.length_append, digits]
      exact Nat.le_add_right _ _
    rw [long.spelled, List.cons_append]
    simp only [readHead, initial, parts, front, value, behind]
    rw [if_neg (by omega), if_neg (by omega), if_pos ⟨enough, long.length⟩]

theorem write_head_read (symbols : List UInt8) (value : Nat × Nat) (rest : List UInt8)
    (found : readHead symbols = some (value, rest)) :
    (value.1 < 8 ∧ value.2 < 2 ^ 64) ∧ symbols = head value.1 value.2 ++ rest := by
  cases symbols with
  | nil => cases found
  | cons initial tail =>
      have byte := initial.toNat_lt
      have major : initial.toNat / 32 < 8 := by omega
      have parts : 32 * (initial.toNat / 32) + initial.toNat % 32 = initial.toNat := by omega
      simp only [readHead] at found
      split at found
      · rename_i short
        cases found
        refine ⟨⟨major, Nat.lt_trans short (by decide)⟩, ?_⟩
        rw [short_head short, parts, UInt8.ofNat_toNat]
        rfl
      · rename_i long
        split at found
        · cases found
        · rename_i defined
          split at found
          · rename_i accepted
            obtain ⟨enough, length⟩ := accepted
            cases found
            obtain ⟨width, same⟩ : ∃ width, 2 ^ (initial.toNat % 32 - 24) = width := ⟨_, rfl⟩
            rw [same] at enough length ⊢
            have digits : (tail.take width).length = width := by
              rw [List.length_take]
              omega
            have eight : width ≤ 8 := by
              rw [← same]
              exact Nat.pow_le_pow_right (by decide : 0 < 2) (by omega : initial.toNat % 32 - 24 ≤ 3)
            have small : fromBigEndian (tail.take width) < 2 ^ 64 := by
              have below := from_big_endian_lt (tail.take width)
              rw [digits] at below
              exact Nat.lt_of_lt_of_le below (Nat.pow_le_pow_right (by decide) eight)
            have positive : 0 < width := by
              rw [← same]
              exact Nat.pow_pos (by decide)
            have large : 24 ≤ fromBigEndian (tail.take width) := by
              by_contra low
              have one := head_length_one.mpr (Nat.lt_of_not_le low)
              omega
            obtain ⟨information, head'⟩ := long_head large small
            have known := information_unique head' (Nat.le_of_not_lt long) (Nat.lt_of_not_le defined)
              (length.trans (by rw [same]))
            have spelled := head'.spelled (initial.toNat / 32)
            have read := big_endian_read (tail.take width)
            rw [digits] at read
            rw [known, parts, same, read, UInt8.ofNat_toNat] at spelled
            exact ⟨⟨major, small⟩, by rw [spelled, List.cons_append, List.take_append_drop]⟩
          · cases found

/-- The first byte alone tells the major type. -/
theorem read_head_major {initial : UInt8} {tail rest : List UInt8} {value : Nat × Nat}
    (found : readHead (initial :: tail) = some (value, rest)) : value.1 = initial.toNat / 32 := by
  simp only [readHead] at found
  split at found
  · cases found
    rfl
  · split at found
    · cases found
    · split at found
      · cases found
        rfl
      · cases found

def anyHead : Format UInt8 (Nat × Nat) where
  admits value := value.1 < 8 ∧ value.2 < 2 ^ 64
  write value := head value.1 value.2
  read := readHead
  read_write := fun _ rest admitted => read_head_write rest admitted.1 admitted.2
  write_read := write_head_read

end Heads

def signed : Int → Nat × Nat
  | .ofNat value => (0, value)
  | .negSucc below => (1, below)

def unsigned (value : Nat × Nat) : Option Int :=
  if value.1 = 0 then some (.ofNat value.2)
  else if value.1 = 1 then some (.negSucc value.2)
  else none

/-- The integers of major types 0 and 1. -/
def integerFormat : Format UInt8 Int :=
  converted anyHead signed unsigned
    (by intro value; cases value <;> rfl)
    (by
      intro value number found
      rw [unsigned] at found
      split at found
      · rename_i major
        cases found
        exact Prod.ext major.symm rfl
      · split at found
        · rename_i major
          cases found
          exact Prod.ext major.symm rfl
        · cases found)

def arrayHead : Format UInt8 Nat :=
  converted anyHead (fun count => (4, count)) (fun value => if value.1 = 4 then some value.2 else none)
    (fun _ => rfl)
    (by
      intro value count found
      split at found
      · rename_i major
        cases found
        exact Prod.ext major.symm rfl
      · cases found)

theorem read_array_head {initial : UInt8} {tail rest : List UInt8} {count : Nat}
    (found : arrayHead.read (initial :: tail) = some (count, rest)) : initial.toNat / 32 = 4 := by
  obtain ⟨front, head, later⟩ := Option.bind_eq_some_iff.mp found
  obtain ⟨inside, converts, -⟩ := Option.map_eq_some_iff.mp later
  have converts : (if front.1.1 = 4 then some front.1.2 else none) = some inside := converts
  rw [← read_head_major head]
  split at converts
  · assumption
  · cases converts

def fixedArray {Value : Type} (count : Nat) (elements : Format UInt8 Value) : Format UInt8 Value :=
  converted (both arrayHead elements) (fun value => (count, value))
    (fun found => if found.1 = count then some found.2 else none)
    (fun _ => if_pos rfl)
    (by
      intro found value same
      split at same
      · rename_i counted
        cases same
        exact Prod.ext counted.symm rfl
      · cases same)

theorem integer_written (value : Int) : integerFormat.write value = integer value := by
  cases value <;> rfl

theorem integer_admitted (value : Int) : integerFormat.admits value ↔ magnitude value < 2 ^ 64 := by
  cases value with
  | ofNat value => exact and_iff_right (by decide : 0 < 8)
  | negSucc below => exact and_iff_right (by decide : 1 < 8)

theorem array_head_written (count : Nat) : arrayHead.write count = head 4 count := rfl

theorem array_head_admitted (count : Nat) : arrayHead.admits count ↔ count < 2 ^ 64 :=
  and_iff_right (by decide : 4 < 8)

end ThingyAccel.CborFormats
