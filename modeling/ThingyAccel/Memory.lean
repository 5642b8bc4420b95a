import Mathlib.Data.List.Basic

/-! Checked access to flat memory. A read or a write outside the region and the
exhaustion of a loop's fuel are faults, so a definition that never faults has
been shown to stay inside its arrays and to end. -/
namespace ThingyAccel.Memory

inductive Fault where
  | outOfBounds
  | outOfFuel
  deriving DecidableEq, Repr

abbrev Checked := Except Fault

variable {α : Type}

def readAt (region : List α) (index : Nat) : Checked α :=
  match region[index]? with
  | some value => .ok value
  | none => .error .outOfBounds

/-- `memcpy(&region[offset], bytes, length)`. -/
def writeAt (region : List α) (offset : Nat) (bytes : List α) : Checked (List α) :=
  if offset + bytes.length ≤ region.length then
    .ok (region.take offset ++ bytes ++ region.drop (offset + bytes.length))
  else .error .outOfBounds

@[simp] theorem checked_bind {β γ : Type} (value : β) (next : β → Checked γ) :
    (Except.ok value >>= next : Checked γ) = next value := rfl

theorem bind_ok {β γ : Type} {action : Checked β} {next : β → Checked γ} {result : γ} :
    action >>= next = .ok result ↔ ∃ value, action = .ok value ∧ next value = .ok result := by
  cases action with
  | error fault => simp [Bind.bind, Except.bind]
  | ok value => simp

theorem read_at_some {region : List α} {index : Nat} {value : α}
    (present : region[index]? = some value) : readAt region index = .ok value := by
  simp [readAt, present]

theorem write_at_inside {region : List α} {offset : Nat} {bytes : List α}
    (inside : offset + bytes.length ≤ region.length) :
    writeAt region offset bytes =
      .ok (region.take offset ++ bytes ++ region.drop (offset + bytes.length)) := by
  simp [writeAt, inside]

theorem written_length {region : List α} {offset : Nat} {bytes : List α}
    (inside : offset + bytes.length ≤ region.length) :
    (region.take offset ++ bytes ++ region.drop (offset + bytes.length)).length =
      region.length := by
  simp only [List.length_append, List.length_take, List.length_drop]
  omega

theorem write_at_single {region : List α} {index : Nat} {value : α}
    (inside : index < region.length) :
    writeAt region index [value] = .ok (region.set index value) := by
  have room : index + [value].length ≤ region.length := inside
  rw [write_at_inside room, List.set_eq_take_append_cons_drop, if_pos inside]
  simp

/-- The three zones of a region after a write: kept, overwritten, kept. -/
theorem written_get {region : List α} {offset : Nat} {bytes : List α}
    (inside : offset + bytes.length ≤ region.length) (index : Nat) :
    (region.take offset ++ bytes ++ region.drop (offset + bytes.length))[index]? =
      if index < offset then region[index]?
      else if index < offset + bytes.length then bytes[index - offset]?
      else region[index]? := by
  have startLength : (region.take offset).length = offset := by
    rw [List.length_take]; omega
  rw [List.append_assoc]
  by_cases before : index < offset
  · rw [List.getElem?_append_left (by omega), List.getElem?_take_of_lt before]
    simp [before]
  · rw [List.getElem?_append_right (by omega), startLength]
    by_cases within : index < offset + bytes.length
    · rw [List.getElem?_append_left (by omega)]
      simp [before, within]
    · rw [List.getElem?_append_right (by omega), List.getElem?_drop]
      simp only [before, within, ↓reduceIte]
      congr 1
      omega

/-- A store into memory whose end is not known here: bytes past the listed ones
are taken in as the store reaches them. -/
def storeAt (memory : List UInt8) (offset : Nat) (bytes : List UInt8) : List UInt8 :=
  let grown := memory ++ List.replicate (offset + bytes.length - memory.length) 0
  grown.take offset ++ bytes ++ grown.drop (offset + bytes.length)

theorem store_at_length {memory bytes : List UInt8} {offset : Nat}
    (inside : offset + bytes.length ≤ memory.length) :
    (storeAt memory offset bytes).length = memory.length := by
  have grown : offset + bytes.length - memory.length = 0 := Nat.sub_eq_zero_of_le inside
  rw [storeAt, grown, List.replicate_zero, List.append_nil]
  exact written_length inside

theorem store_at_behind {memory bytes : List UInt8} {offset index : Nat}
    (behind : offset + bytes.length ≤ index) : (storeAt memory offset bytes)[index]? = memory[index]? := by
  have front : ((memory ++ List.replicate (offset + bytes.length - memory.length) 0).take offset).length =
      offset := by
    rw [List.length_take, List.length_append, List.length_replicate]
    omega
  rw [storeAt, List.append_assoc, List.getElem?_append_right (by omega), front,
    List.getElem?_append_right (by omega), List.getElem?_drop]
  have position : offset + bytes.length + (index - offset - bytes.length) = index := by omega
  rw [position]
  by_cases inside : index < memory.length
  · exact List.getElem?_append_left inside
  · rw [List.getElem?_eq_none (Nat.le_of_not_lt inside), List.getElem?_eq_none]
    rw [List.length_append, List.length_replicate]
    omega

theorem store_at_take {memory front bytes : List UInt8} (known : memory.take front.length = front) :
    (storeAt memory front.length bytes).take (front.length + bytes.length) = front ++ bytes := by
  have inside : front.length ≤ memory.length := by
    have short := congrArg List.length known
    rw [List.length_take] at short
    omega
  have start : (memory ++ List.replicate (front.length + bytes.length - memory.length) 0).take
      front.length = front := by
    rw [List.take_append_of_le_length inside, known]
  rw [storeAt, start, List.take_left' (by simp)]

end ThingyAccel.Memory
