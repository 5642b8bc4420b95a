import Mathlib.Data.List.Basic
import Mathlib.Data.Nat.Bitwise
import Mathlib.Tactic.IntervalCases
import Mathlib.Tactic.Ring

/-! Bit strings written most significant bit first, and the byte accumulator
that packs them: a partly filled byte and a mask that walks from 0x80 to 0x01. -/
namespace ThingyAccel.Bits

/-- The low `width` bits of `value`, most significant first. -/
def ofNat : Nat → Nat → List Bool
  | 0, _ => []
  | width + 1, value => value.testBit width :: ofNat width value

def toNat (bits : List Bool) : Nat :=
  bits.foldl (fun value bit => 2 * value + bit.toNat) 0

def ofByte (byte : UInt8) : List Bool := ofNat 8 byte.toNat

def ofBytes (bytes : List UInt8) : List Bool := bytes.flatMap ofByte

@[simp] theorem of_nat_length (width value : Nat) : (ofNat width value).length = width := by
  induction width with
  | zero => rfl
  | succ width ih => simp [ofNat, ih]

@[simp] theorem of_byte_length (byte : UInt8) : (ofByte byte).length = 8 := of_nat_length 8 _

@[simp] theorem of_bytes_length (bytes : List UInt8) :
    (ofBytes bytes).length = 8 * bytes.length := by
  induction bytes with
  | nil => rfl
  | cons byte rest ih =>
      simp only [ofBytes, List.flatMap_cons, List.length_append, of_byte_length] at *
      rw [ih, List.length_cons]
      omega

theorem of_bytes_append (left right : List UInt8) :
    ofBytes (left ++ right) = ofBytes left ++ ofBytes right :=
  List.flatMap_append

theorem of_bytes_snoc (bytes : List UInt8) (byte : UInt8) :
    ofBytes (bytes ++ [byte]) = ofBytes bytes ++ ofByte byte := by
  simp [ofBytes]

theorem of_nat_add (high low value : Nat) :
    ofNat (high + low) value = ofNat high (value >>> low) ++ ofNat low value := by
  induction high with
  | zero => simp [ofNat]
  | succ high ih =>
      rw [Nat.succ_add, ofNat, ofNat, ih, Nat.testBit_shiftRight, Nat.add_comm low high]
      rfl

theorem of_nat_congr (width : Nat) {left right : Nat}
    (same : ∀ bit < width, left.testBit bit = right.testBit bit) :
    ofNat width left = ofNat width right := by
  induction width with
  | zero => rfl
  | succ width ih =>
      rw [ofNat, ofNat, same width (Nat.lt_succ_self width),
        ih (fun bit bound => same bit (Nat.lt_succ_of_lt bound))]

theorem of_nat_mod (width modulus value : Nat) (fits : width ≤ modulus) :
    ofNat width (value % 2 ^ modulus) = ofNat width value := by
  apply of_nat_congr
  intro bit bound
  simp only [Nat.testBit_mod_two_pow, decide_eq_true (show bit < modulus by omega), Bool.true_and]

theorem fold_shift (bits : List Bool) (start : Nat) :
    bits.foldl (fun value bit => 2 * value + bit.toNat) start =
      start * 2 ^ bits.length + toNat bits := by
  induction bits generalizing start with
  | nil => simp [toNat]
  | cons bit rest ih =>
      simp only [toNat, List.foldl_cons, List.length_cons] at *
      rw [ih, ih (2 * 0 + bit.toNat)]
      ring

theorem to_nat_cons (bit : Bool) (rest : List Bool) :
    toNat (bit :: rest) = bit.toNat * 2 ^ rest.length + toNat rest := by
  simpa [toNat] using fold_shift rest (2 * 0 + bit.toNat)

theorem to_nat_of_nat_mod (width value : Nat) : toNat (ofNat width value) = value % 2 ^ width := by
  induction width with
  | zero => simp [ofNat, toNat, Nat.mod_one]
  | succ width ih =>
      rw [ofNat, to_nat_cons, ih, of_nat_length, Nat.mod_pow_succ, Nat.toNat_testBit,
        Nat.add_comm, Nat.mul_comm]

theorem to_nat_of_nat {width value : Nat} (fits : value < 2 ^ width) :
    toNat (ofNat width value) = value := by
  rw [to_nat_of_nat_mod, Nat.mod_eq_of_lt fits]

theorem to_nat_of_byte (byte : UInt8) : UInt8.ofNat (toNat (ofByte byte)) = byte := by
  rw [ofByte, to_nat_of_nat (by simpa using byte.toNat_lt), UInt8.ofNat_toNat]

/-- The byte that starts with the given bits and is zero after them. -/
def packFrom (mask : UInt8) : List Bool → UInt8
  | [] => 0
  | bit :: rest => (if bit then mask else 0) ||| packFrom (mask >>> 1) rest

def pack (bits : List Bool) : UInt8 := packFrom 0x80 bits

/-- A walking mask after `count` bits of a byte. -/
def maskAfter : Nat → UInt8
  | 0 => 0x80
  | count + 1 => maskAfter count >>> 1

theorem pack_from_snoc (bits : List Bool) (bit : Bool) (count : Nat) :
    packFrom (maskAfter count) (bits ++ [bit]) =
      packFrom (maskAfter count) bits |||
        (if bit then maskAfter (count + bits.length) else 0) := by
  induction bits generalizing count with
  | nil => simp [packFrom]
  | cons first rest ih =>
      have shifted := ih (count + 1)
      simp only [maskAfter] at shifted
      simp only [List.cons_append, packFrom, shifted, List.length_cons, UInt8.or_assoc]
      rw [show count + 1 + rest.length = count + (rest.length + 1) by omega]

theorem pack_snoc (bits : List Bool) (bit : Bool) :
    pack (bits ++ [bit]) = if bit then pack bits ||| maskAfter bits.length else pack bits := by
  have extended := pack_from_snoc bits bit 0
  simp only [maskAfter, Nat.zero_add] at extended
  rw [pack, extended]
  cases bit <;> simp [pack]

theorem mask_exhausted {count : Nat} (inside : count < 8) :
    maskAfter count >>> 1 = 0 ↔ count = 7 := by
  interval_cases count <;> decide

theorem mask_fresh {count : Nat} (inside : count < 8) : maskAfter count = 0x80 ↔ count = 0 := by
  interval_cases count <;> decide

theorem of_byte_pack {bits : List Bool} (full : bits.length = 8) :
    ofByte (pack bits) = bits := by
  obtain ⟨a, b, c, d, e, f, g, h, rfl⟩ : ∃ a b c d e f g h, bits = [a, b, c, d, e, f, g, h] := by
    match bits, full with
    | [a, b, c, d, e, f, g, h], _ => exact ⟨a, b, c, d, e, f, g, h, rfl⟩
  -- All 256 bytes are tried.
  revert a b c d e f g h
  decide

/-- Zeros after the packed bits are what the byte holds there. -/
theorem of_byte_pack_padded {bits : List Bool} (short : bits.length ≤ 8) :
    ofByte (pack bits) = bits ++ List.replicate (8 - bits.length) false := by
  -- Zeros at the end never change the packed byte.
  have padded : ∀ count, pack (bits ++ List.replicate count false) = pack bits := by
    intro count
    induction count with
    | zero => simp
    | succ count ih =>
        rw [List.replicate_succ', ← List.append_assoc, pack_snoc]
        simpa using ih
  rw [← padded (8 - bits.length)]
  exact of_byte_pack (by simp; omega)

/-- The bytes that hold a list of bits, the last one filled up with zeros. -/
def packAll (bits : List Bool) : List UInt8 :=
  if bits = [] then [] else pack (bits.take 8) :: packAll (bits.drop 8)
termination_by bits.length
decreasing_by
  rename_i present
  have positive := List.length_pos_iff.mpr present
  rw [List.length_drop]
  omega

theorem pack_all_nil : packAll [] = [] := by
  rw [packAll, if_pos rfl]

theorem pack_all_cons {bits : List Bool} (present : bits ≠ []) :
    packAll bits = pack (bits.take 8) :: packAll (bits.drop 8) := by
  rw [packAll, if_neg present]

theorem of_byte_injective {byte other : UInt8} (same : ofByte byte = ofByte other) :
    byte = other := by
  rw [← to_nat_of_byte byte, same, to_nat_of_byte]

theorem of_bytes_pack_all (bits : List Bool) :
    ∃ padding < 8, ofBytes (packAll bits) = bits ++ List.replicate padding false := by
  induction bits using packAll.induct with
  | case1 => exact ⟨0, by decide, by rw [pack_all_nil]; rfl⟩
  | case2 bits present ih =>
      obtain ⟨padding, few, rest⟩ := ih
      have positive := List.length_pos_iff.mpr present
      have first : ofByte (pack (bits.take 8)) =
          bits.take 8 ++ List.replicate (8 - (bits.take 8).length) false :=
        of_byte_pack_padded (by rw [List.length_take]; omega)
      rw [pack_all_cons present, ofBytes, List.flatMap_cons, ← ofBytes, rest, first]
      by_cases long : 8 ≤ bits.length
      · refine ⟨padding, few, ?_⟩
        have full : (bits.take 8).length = 8 := by rw [List.length_take]; omega
        rw [full, Nat.sub_self, List.replicate_zero, List.append_nil, ← List.append_assoc,
          List.take_append_drop]
      · -- The last byte: nothing is left behind it.
        have short : bits.take 8 = bits := List.take_of_length_le (by omega)
        have empty : bits.drop 8 = [] := List.drop_of_length_le (by omega)
        rw [empty, pack_all_nil] at rest
        have none : padding = 0 := by
          have total := congrArg List.length rest
          simpa [ofBytes] using total.symm
        rw [short, empty, none]
        exact ⟨8 - bits.length, by omega, by simp⟩

theorem pack_all_unique {bytes : List UInt8} {bits : List Bool} {padding : Nat} (few : padding < 8)
    (held : ofBytes bytes = bits ++ List.replicate padding false) : bytes = packAll bits := by
  induction bytes generalizing bits with
  | nil =>
      have empty : bits = [] := (List.append_eq_nil_iff.mp held.symm).1
      rw [empty, pack_all_nil]
  | cons byte rest ih =>
      have total := congrArg List.length held
      rw [of_bytes_length, List.length_append, List.length_replicate, List.length_cons] at total
      have present : bits ≠ [] := by
        intro empty
        rw [empty, List.length_nil] at total
        omega
      rw [ofBytes, List.flatMap_cons, ← ofBytes] at held
      rw [pack_all_cons present]
      by_cases long : 8 ≤ bits.length
      · rw [← List.take_append_drop 8 bits, List.append_assoc] at held
        obtain ⟨first, later⟩ := List.append_inj held
          (by rw [of_byte_length, List.length_take]; omega)
        rw [← ih later]
        apply congrArg (· :: rest)
        apply of_byte_injective
        rw [first, of_byte_pack (by rw [List.length_take]; omega)]
      · have single : rest = [] := List.eq_nil_of_length_eq_zero (by omega)
        subst single
        have short : bits.take 8 = bits := List.take_of_length_le (by omega)
        have empty : bits.drop 8 = [] := List.drop_of_length_le (by omega)
        have last : padding = 8 - bits.length := by
          rw [List.length_nil] at total
          omega
        rw [short, empty, pack_all_nil]
        apply congrArg (· :: [])
        apply of_byte_injective
        rw [of_byte_pack_padded (by omega), ← last, ← held]
        simp [ofBytes]

end ThingyAccel.Bits
