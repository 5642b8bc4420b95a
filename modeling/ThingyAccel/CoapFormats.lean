import ThingyAccel.Formats

/-! The bytes of a CoAP message, version 1: a header, a token, options whose numbers are
written as differences, and a payload behind a marker. -/
namespace ThingyAccel.CoapFormats

open Formats

section Extended

/-- What the four bits in front say of a value. -/
def nibble (value : Nat) : Nat :=
  if value < 13 then value else if value < 269 then 13 else 14

/-- The bytes of a value that has no place in them. -/
def extension (value : Nat) : List UInt8 :=
  if value < 13 then []
  else if value < 269 then [UInt8.ofNat (value - 13)]
  else [UInt8.ofNat ((value - 269) / 256), UInt8.ofNat (value - 269)]

def readByte : List UInt8 → Option (Nat × List UInt8)
  | first :: rest => some (first.toNat, rest)
  | [] => none

def readWord : List UInt8 → Option (Nat × List UInt8)
  | high :: low :: rest => some (256 * high.toNat + low.toNat, rest)
  | _ => none

def readExtended (nibble : Nat) (bytes : List UInt8) : Option (Nat × List UInt8) :=
  if nibble < 13 then some (nibble, bytes)
  else if nibble = 13 then (readByte bytes).map fun found => (found.1 + 13, found.2)
  else if nibble = 14 then (readWord bytes).map fun found => (found.1 + 269, found.2)
  else none

variable {value : Nat}

theorem nibble_small (value : Nat) : nibble value < 15 := by
  rw [nibble]
  split
  · omega
  · split <;> decide

theorem read_extended_write (small : value < 65805) (rest : List UInt8) :
    readExtended (nibble value) (extension value ++ rest) = some (value, rest) := by
  rw [nibble, extension]
  by_cases short : value < 13
  · rw [if_pos short, if_pos short, readExtended, if_pos short, List.nil_append]
  · rw [if_neg short, if_neg short]
    by_cases byte : value < 269
    · rw [if_pos byte, if_pos byte]
      have digit : (UInt8.ofNat (value - 13)).toNat = value - 13 :=
        UInt8.toNat_ofNat_of_lt' (show _ < 256 by omega)
      show some ((UInt8.ofNat (value - 13)).toNat + 13, rest) = some (value, rest)
      rw [digit, Nat.sub_add_cancel (Nat.not_lt.mp short)]
    · rw [if_neg byte, if_neg byte]
      have high : (UInt8.ofNat ((value - 269) / 256)).toNat = (value - 269) / 256 :=
        UInt8.toNat_ofNat_of_lt' (show _ < 256 by omega)
      have low : (UInt8.ofNat (value - 269)).toNat = (value - 269) % 256 := UInt8.toNat_ofNat'
      show some (256 * (UInt8.ofNat ((value - 269) / 256)).toNat +
        (UInt8.ofNat (value - 269)).toNat + 269, rest) = some (value, rest)
      rw [high, low, Nat.div_add_mod, Nat.sub_add_cancel (Nat.not_lt.mp byte)]

theorem write_read_extended {front : Nat} {bytes rest : List UInt8}
    (found : readExtended front bytes = some (value, rest)) :
    value < 65805 ∧ front = nibble value ∧ bytes = extension value ++ rest := by
  rw [readExtended] at found
  split at found
  · rename_i short
    cases found
    rw [nibble, extension, if_pos short, if_pos short]
    exact ⟨by omega, rfl, rfl⟩
  · split at found
    · rename_i one
      cases bytes with
      | nil => cases found
      | cons first tail =>
          cases found
          have below := first.toNat_lt
          have large : ¬ first.toNat + 13 < 13 := by omega
          have byte : first.toNat + 13 < 269 := by omega
          rw [nibble, extension, if_neg large, if_neg large, if_pos byte, if_pos byte,
            Nat.add_sub_cancel, UInt8.ofNat_toNat]
          exact ⟨by omega, one, rfl⟩
    · split at found
      · rename_i two
        cases bytes with
        | nil => cases found
        | cons high tail => cases tail with
          | nil => cases found
          | cons low tail =>
              cases found
              have below := high.toNat_lt
              have below' := low.toNat_lt
              have large : ¬ 256 * high.toNat + low.toNat + 269 < 13 := by omega
              have word : ¬ 256 * high.toNat + low.toNat + 269 < 269 := by omega
              have quotient : (256 * high.toNat + low.toNat) / 256 = high.toNat := by omega
              have remainder : UInt8.ofNat (256 * high.toNat + low.toNat) = low := by
                apply UInt8.toNat_inj.mp
                rw [UInt8.toNat_ofNat']
                omega
              rw [nibble, extension, if_neg large, if_neg large, if_neg word, if_neg word,
                Nat.add_sub_cancel, quotient, UInt8.ofNat_toNat, remainder]
              exact ⟨by omega, two, rfl⟩
      · cases found

end Extended

/-- An option by the difference to the number before it. -/
structure CoapOption where
  delta : Nat
  value : List UInt8
  deriving DecidableEq, Repr

section Options

def CoapOption.write (option : CoapOption) : List UInt8 :=
  UInt8.ofNat (16 * nibble option.delta + nibble option.value.length) ::
    (extension option.delta ++ (extension option.value.length ++ option.value))

def readOption : List UInt8 → Option (CoapOption × List UInt8)
  | [] => none
  | first :: rest =>
      (readExtended (first.toNat / 16) rest).bind fun delta =>
        (readExtended (first.toNat % 16) delta.2).bind fun length =>
          if length.1 ≤ length.2.length then
            some (⟨delta.1, length.2.take length.1⟩, length.2.drop length.1)
          else none

theorem first_byte (option : CoapOption) :
    (UInt8.ofNat (16 * nibble option.delta + nibble option.value.length)).toNat =
      16 * nibble option.delta + nibble option.value.length := by
  have delta := nibble_small option.delta
  have length := nibble_small option.value.length
  exact UInt8.toNat_ofNat_of_lt' (show _ < 256 by omega)

def optionFormat : Format UInt8 CoapOption where
  admits option := option.delta < 65805 ∧ option.value.length < 65805
  write := CoapOption.write
  read := readOption
  read_write := by
    rintro option rest ⟨delta, length⟩
    have small := nibble_small option.value.length
    have front : (16 * nibble option.delta + nibble option.value.length) / 16 =
        nibble option.delta := by omega
    have back : (16 * nibble option.delta + nibble option.value.length) % 16 =
        nibble option.value.length := by omega
    rw [CoapOption.write, List.cons_append, readOption, first_byte, front, back, List.append_assoc,
      List.append_assoc, read_extended_write delta, Option.bind_some, read_extended_write length,
      Option.bind_some, if_pos (by rw [List.length_append]; exact Nat.le_add_right _ _),
      List.take_left, List.drop_left]
  write_read := by
    intro bytes option rest found
    cases bytes with
    | nil => cases found
    | cons first tail =>
        obtain ⟨⟨delta, behind⟩, found, later⟩ := Option.bind_eq_some_iff.mp found
        obtain ⟨⟨length, last⟩, found', later'⟩ := Option.bind_eq_some_iff.mp later
        obtain ⟨small, front, split⟩ := write_read_extended found
        obtain ⟨small', back, split'⟩ := write_read_extended found'
        simp only at later'
        split at later'
        · rename_i enough
          cases later'
          have long : (last.take length).length = length := List.length_take_of_le enough
          have whole : first.toNat = 16 * nibble delta + nibble length := by omega
          refine ⟨⟨small, by rw [long]; exact small'⟩, ?_⟩
          rw [CoapOption.write, long, ← whole, UInt8.ofNat_toNat, List.cons_append, List.append_assoc,
            List.append_assoc, List.take_append_drop, split]
          exact congrArg (fun behind => first :: (extension delta ++ behind)) split'
        · cases later'

theorem marker_refused (rest : List UInt8) : optionFormat.read (0xFF :: rest) = none := rfl

theorem option_length (option : CoapOption) : 0 < (optionFormat.write option).length := Nat.succ_pos _

end Options

section Bodies

def writeBody (options : List CoapOption) (payload : List UInt8) : List UInt8 :=
  options.flatMap optionFormat.write ++ if payload = [] then [] else 0xFF :: payload

def readBody (count : Nat) (bytes : List UInt8) : Option (List CoapOption × List UInt8) :=
  match count, bytes with
  | _, [] => some ([], [])
  | 0, _ :: _ => none
  | count + 1, first :: rest =>
      if first = 0xFF then if rest = [] then none else some ([], rest)
      else (optionFormat.read (first :: rest)).bind fun found =>
        (readBody count found.2).map fun later => (found.1 :: later.1, later.2)

theorem read_body_write {options : List CoapOption} {payload : List UInt8} {count : Nat}
    (admitted : ∀ option ∈ options, optionFormat.admits option) (enough : options.length < count) :
    readBody count (writeBody options payload) = some (options, payload) := by
  induction options generalizing count with
  | nil =>
      cases count with
      | zero => exact absurd enough (Nat.not_lt_zero _)
      | succ count =>
          rw [writeBody, List.flatMap_nil, List.nil_append]
          cases payload with
          | nil => rfl
          | cons first rest => rfl
  | cons option rest ih =>
      cases count with
      | zero => exact absurd enough (Nat.not_lt_zero _)
      | succ count =>
          obtain ⟨here, others⟩ := List.forall_mem_cons.mp admitted
          have split : writeBody (option :: rest) payload =
              optionFormat.write option ++ writeBody rest payload := by
            rw [writeBody, List.flatMap_cons, List.append_assoc]
            rfl
          have tail := ih others (Nat.lt_of_succ_lt_succ enough)
          have read := optionFormat.read_write option (writeBody rest payload) here
          rw [split]
          cases spelled : optionFormat.write option ++ writeBody rest payload with
          | nil =>
              have positive := option_length option
              rw [(List.append_eq_nil_iff.mp spelled).1] at positive
              exact absurd positive (Nat.lt_irrefl 0)
          | cons first bytes =>
              rw [spelled] at read
              have plain : first ≠ 0xFF := by
                rintro rfl
                rw [marker_refused] at read
                cases read
              rw [readBody, if_neg plain, read, Option.bind_some, tail]
              rfl

theorem write_read_body {count : Nat} {bytes payload : List UInt8} {options : List CoapOption}
    (found : readBody count bytes = some (options, payload)) :
    (∀ option ∈ options, optionFormat.admits option) ∧ bytes = writeBody options payload := by
  induction count generalizing bytes options with
  | zero =>
      cases bytes with
      | nil =>
          cases found
          exact ⟨fun option member => absurd member List.not_mem_nil, rfl⟩
      | cons first rest => cases found
  | succ count ih =>
      cases bytes with
      | nil =>
          cases found
          exact ⟨fun option member => absurd member List.not_mem_nil, rfl⟩
      | cons first rest =>
          rw [readBody] at found
          split at found
          · rename_i marker
            split at found
            · cases found
            · rename_i some'
              cases found
              refine ⟨fun option member => absurd member List.not_mem_nil, ?_⟩
              rw [writeBody, if_neg some', marker]
              rfl
          · obtain ⟨front, head, later⟩ := Option.bind_eq_some_iff.mp found
            obtain ⟨next, tail, same⟩ := Option.map_eq_some_iff.mp later
            cases same
            obtain ⟨admitted, split⟩ := optionFormat.write_read _ _ _ head
            obtain ⟨others, split'⟩ := ih tail
            refine ⟨List.forall_mem_cons.mpr ⟨admitted, others⟩, ?_⟩
            rw [split, split', writeBody, writeBody, List.flatMap_cons, List.append_assoc]

end Bodies

structure CoapMessage where
  type : Nat
  code : Nat
  id : Nat
  token : List UInt8
  options : List CoapOption
  payload : List UInt8
  deriving DecidableEq, Repr

structure Admitted (message : CoapMessage) : Prop where
  type : message.type < 4
  code : message.code < 256
  id : message.id < 65536
  token : message.token.length ≤ 8
  options : ∀ option ∈ message.options, optionFormat.admits option

section Messages

/-- The version, the type and the length of the token share the first byte. -/
def header (type code id length : Nat) : List UInt8 :=
  [UInt8.ofNat (64 + 16 * type + length), UInt8.ofNat code, UInt8.ofNat (id / 256), UInt8.ofNat id]

def writeMessage (message : CoapMessage) : List UInt8 :=
  header message.type message.code message.id message.token.length ++
    (message.token ++ writeBody message.options message.payload)

def readMessage : List UInt8 → Option CoapMessage
  | first :: code :: high :: low :: rest =>
      let length := first.toNat % 16
      if first.toNat / 64 = 1 ∧ length ≤ 8 ∧ length ≤ rest.length then
        (readBody (rest.length + 1) (rest.drop length)).map fun body =>
          { type := first.toNat / 16 % 4, code := code.toNat, id := 256 * high.toNat + low.toNat
            token := rest.take length, options := body.1, payload := body.2 }
      else none
  | _ => none

theorem options_count (options : List CoapOption) :
    options.length ≤ (options.flatMap optionFormat.write).length := by
  induction options with
  | nil => exact Nat.le_refl 0
  | cons option rest ih =>
      have positive := option_length option
      rw [List.length_cons, List.flatMap_cons, List.length_append]
      omega

/-- What is written is read back, and nothing else is read. -/
theorem read_message_iff {bytes : List UInt8} {message : CoapMessage} :
    readMessage bytes = some message ↔ Admitted message ∧ bytes = writeMessage message := by
  constructor
  · intro found
    cases bytes with
    | nil => cases found
    | cons first bytes => cases bytes with
      | nil => cases found
      | cons code bytes => cases bytes with
        | nil => cases found
        | cons high bytes => cases bytes with
          | nil => cases found
          | cons low rest =>
              simp only [readMessage] at found
              split at found
              · rename_i known
                obtain ⟨version, short, enough⟩ := known
                obtain ⟨body, inside, rfl⟩ := Option.map_eq_some_iff.mp found
                obtain ⟨admitted, spelled⟩ := write_read_body inside
                have long : (rest.take (first.toNat % 16)).length = first.toNat % 16 :=
                  List.length_take_of_le enough
                have below := first.toNat_lt
                have below' := high.toNat_lt
                have below'' := low.toNat_lt
                refine ⟨⟨Nat.mod_lt _ (by decide), code.toNat_lt, by dsimp only; omega,
                  by dsimp only; omega, admitted⟩, ?_⟩
                have first' : UInt8.ofNat (64 + 16 * (first.toNat / 16 % 4) + first.toNat % 16) =
                    first := by
                  have whole : 64 + 16 * (first.toNat / 16 % 4) + first.toNat % 16 = first.toNat := by
                    omega
                  rw [whole, UInt8.ofNat_toNat]
                have high' : UInt8.ofNat ((256 * high.toNat + low.toNat) / 256) = high := by
                  have quotient : (256 * high.toNat + low.toNat) / 256 = high.toNat := by omega
                  rw [quotient, UInt8.ofNat_toNat]
                have low' : UInt8.ofNat (256 * high.toNat + low.toNat) = low := by
                  apply UInt8.toNat_inj.mp
                  rw [UInt8.toNat_ofNat']
                  omega
                simp only [writeMessage, header, long, first', high', low', UInt8.ofNat_toNat]
                rw [← spelled, List.take_append_drop]
                rfl
              · cases found
  · rintro ⟨admitted, rfl⟩
    obtain ⟨type, code, id, token, options⟩ := admitted
    have first : (UInt8.ofNat (64 + 16 * message.type + message.token.length)).toNat =
        64 + 16 * message.type + message.token.length :=
      UInt8.toNat_ofNat_of_lt' (show _ < 256 by omega)
    have length : (64 + 16 * message.type + message.token.length) % 16 = message.token.length := by
      omega
    have version : (64 + 16 * message.type + message.token.length) / 64 = 1 := by omega
    have kind : (64 + 16 * message.type + message.token.length) / 16 % 4 = message.type := by omega
    have code' : (UInt8.ofNat message.code).toNat = message.code := UInt8.toNat_ofNat_of_lt' code
    have high : (UInt8.ofNat (message.id / 256)).toNat = message.id / 256 :=
      UInt8.toNat_ofNat_of_lt' (show _ < 256 by omega)
    have low : (UInt8.ofNat message.id).toNat = message.id % 256 := UInt8.toNat_ofNat'
    have enough : message.token.length ≤
        (message.token ++ writeBody message.options message.payload).length := by
      rw [List.length_append]
      exact Nat.le_add_right _ _
    have counted : message.options.length <
        (message.token ++ writeBody message.options message.payload).length + 1 := by
      have few := options_count message.options
      rw [List.length_append, writeBody, List.length_append]
      omega
    show readMessage (_ :: _ :: _ :: _ :: (message.token ++ _)) = some message
    simp only [readMessage, first, length, version, kind, code', high, low, token, enough, and_self,
      ↓reduceIte, List.drop_left, List.take_left, read_body_write options counted, Nat.div_add_mod,
      Option.map_some]

end Messages

end ThingyAccel.CoapFormats
