import Mathlib.Data.List.Basic

/-! Formats that are read from the front of a list of symbols and leave the rest. A
format carries both laws: what is written is read back in front of anything, and only
what is written is read. -/
namespace ThingyAccel.Formats

universe u v w

structure Format (Symbol : Type u) (Value : Type v) where
  admits : Value → Prop
  write : Value → List Symbol
  read : List Symbol → Option (Value × List Symbol)
  read_write : ∀ value rest, admits value → read (write value ++ rest) = some (value, rest)
  write_read : ∀ symbols value rest, read symbols = some (value, rest) →
    admits value ∧ symbols = write value ++ rest

variable {Symbol : Type u} {Value : Type v} {Other : Type w}

theorem read_iff (format : Format Symbol Value) {symbols rest : List Symbol} {value : Value} :
    format.read symbols = some (value, rest) ↔
      format.admits value ∧ symbols = format.write value ++ rest := by
  constructor
  · exact format.write_read symbols value rest
  · rintro ⟨admitted, rfl⟩
    exact format.read_write value rest admitted

/-- Where one written value ends is seen from its own symbols. -/
theorem written_apart (format : Format Symbol Value) {value other : Value} {rest behind : List Symbol}
    (admitted : format.admits value) (admitted' : format.admits other)
    (same : format.write value ++ rest = format.write other ++ behind) :
    value = other ∧ rest = behind := by
  have first := format.read_write value rest admitted
  rw [same, format.read_write other behind admitted'] at first
  cases first
  exact ⟨rfl, rfl⟩

/-- A value that breaks off is not read as another one. -/
theorem truncated_refused (format : Format Symbol Value) {value : Value} {front back : List Symbol}
    (admitted : format.admits value) (split : format.write value = front ++ back)
    (missing : back ≠ []) : format.read front = none := by
  cases found : format.read front with
  | none => rfl
  | some pair =>
      obtain ⟨admitted', shorter⟩ := format.write_read front pair.1 pair.2 found
      have same : format.write value ++ [] = format.write pair.1 ++ (pair.2 ++ back) := by
        rw [List.append_nil, split, shorter, List.append_assoc]
      have empty := (written_apart format admitted admitted' same).2
      exact absurd (List.append_eq_nil_iff.mp empty.symm).2 missing

def Format.readAll (format : Format Symbol Value) (symbols : List Symbol) : Option Value :=
  match format.read symbols with
  | some (value, []) => some value
  | _ => none

theorem read_all_iff (format : Format Symbol Value) {symbols : List Symbol} {value : Value} :
    format.readAll symbols = some value ↔ format.admits value ∧ symbols = format.write value := by
  have whole := @read_iff Symbol Value format symbols [] value
  rw [List.append_nil] at whole
  rw [← whole, Format.readAll]
  constructor
  · intro found
    split at found
    · cases found
      assumption
    · cases found
  · intro found
    rw [found]

section Combinators

def both (first : Format Symbol Value) (second : Format Symbol Other) :
    Format Symbol (Value × Other) where
  admits pair := first.admits pair.1 ∧ second.admits pair.2
  write pair := first.write pair.1 ++ second.write pair.2
  read symbols := (first.read symbols).bind fun found =>
    (second.read found.2).map fun next => ((found.1, next.1), next.2)
  read_write := by
    intro pair rest admitted
    rw [List.append_assoc, first.read_write pair.1 _ admitted.1, Option.bind_some,
      second.read_write pair.2 rest admitted.2]
    rfl
  write_read := by
    intro symbols pair rest found
    obtain ⟨front, head, later⟩ := Option.bind_eq_some_iff.mp found
    obtain ⟨next, tail, same⟩ := Option.map_eq_some_iff.mp later
    cases same
    obtain ⟨admitted, split⟩ := first.write_read _ _ _ head
    obtain ⟨admitted', split'⟩ := second.write_read _ _ _ tail
    exact ⟨⟨admitted, admitted'⟩, by rw [split, split', List.append_assoc]⟩

def converted (format : Format Symbol Value) (outward : Other → Value)
    (inward : Value → Option Other) (back : ∀ other, inward (outward other) = some other)
    (forth : ∀ value other, inward value = some other → outward other = value) :
    Format Symbol Other where
  admits other := format.admits (outward other)
  write other := format.write (outward other)
  read symbols := (format.read symbols).bind fun found =>
    (inward found.1).map fun other => (other, found.2)
  read_write := by
    intro other rest admitted
    rw [format.read_write _ _ admitted, Option.bind_some, back]
    rfl
  write_read := by
    intro symbols other rest found
    obtain ⟨front, head, later⟩ := Option.bind_eq_some_iff.mp found
    obtain ⟨inside, converts, same⟩ := Option.map_eq_some_iff.mp later
    cases same
    rw [forth _ _ converts]
    exact format.write_read _ _ _ head

def checked (format : Format Symbol Value) (test : Value → Prop) [DecidablePred test] :
    Format Symbol Value where
  admits value := format.admits value ∧ test value
  write := format.write
  read symbols := (format.read symbols).filter fun found => decide (test found.1)
  read_write := by
    intro value rest admitted
    rw [format.read_write _ _ admitted.1, Option.filter_some, if_pos (decide_eq_true admitted.2)]
  write_read := by
    intro symbols value rest found
    obtain ⟨head, passes⟩ := Option.filter_eq_some_iff.mp found
    obtain ⟨admitted, split⟩ := format.write_read _ _ _ head
    exact ⟨⟨admitted, of_decide_eq_true passes⟩, split⟩

/-- Behind a value that says its size, the format for that size. -/
def led {Size : Type v} (format : Format Symbol Size) (body : Size → Format Symbol Other)
    (size : Other → Size) (sized : ∀ count other, (body count).admits other → size other = count) :
    Format Symbol Other where
  admits other := format.admits (size other) ∧ (body (size other)).admits other
  write other := format.write (size other) ++ (body (size other)).write other
  read symbols := (format.read symbols).bind fun found => (body found.1).read found.2
  read_write := by
    intro other rest admitted
    rw [List.append_assoc, format.read_write _ _ admitted.1, Option.bind_some,
      (body (size other)).read_write other rest admitted.2]
  write_read := by
    intro symbols other rest found
    obtain ⟨front, head, later⟩ := Option.bind_eq_some_iff.mp found
    obtain ⟨admitted, split⟩ := format.write_read _ _ _ head
    obtain ⟨admitted', split'⟩ := (body front.1).write_read _ _ _ later
    rw [sized _ _ admitted']
    exact ⟨⟨admitted, admitted'⟩, by rw [split, split', List.append_assoc]⟩

def readTimes (format : Format Symbol Value) :
    Nat → List Symbol → Option (List Value × List Symbol)
  | 0, symbols => some ([], symbols)
  | count + 1, symbols => (format.read symbols).bind fun found =>
      (readTimes format count found.2).map fun later => (found.1 :: later.1, later.2)

theorem read_times_write (format : Format Symbol Value) (values : List Value) (rest : List Symbol)
    (admitted : ∀ value ∈ values, format.admits value) :
    readTimes format values.length (values.flatMap format.write ++ rest) = some (values, rest) := by
  induction values with
  | nil => rfl
  | cons value values ih =>
      have here := admitted value List.mem_cons_self
      have tail := ih fun other member => admitted other (List.mem_cons_of_mem _ member)
      rw [List.length_cons, readTimes, List.flatMap_cons, List.append_assoc,
        format.read_write _ _ here, Option.bind_some, tail]
      rfl

theorem write_read_times (format : Format Symbol Value) (count : Nat) (symbols : List Symbol)
    (values : List Value) (rest : List Symbol)
    (found : readTimes format count symbols = some (values, rest)) :
    (values.length = count ∧ ∀ value ∈ values, format.admits value) ∧
      symbols = values.flatMap format.write ++ rest := by
  induction count generalizing symbols values with
  | zero =>
      cases found
      exact ⟨⟨rfl, fun value member => absurd member List.not_mem_nil⟩, rfl⟩
  | succ count ih =>
      obtain ⟨front, head, later⟩ := Option.bind_eq_some_iff.mp found
      obtain ⟨next, tail, same⟩ := Option.map_eq_some_iff.mp later
      cases same
      obtain ⟨admitted, split⟩ := format.write_read _ _ _ head
      obtain ⟨⟨long, others⟩, split'⟩ := ih _ _ tail
      refine ⟨⟨by rw [List.length_cons, long], ?_⟩, ?_⟩
      · intro value member
        rcases List.mem_cons.mp member with rfl | member
        · exact admitted
        · exact others value member
      · rw [split, split', List.flatMap_cons, List.append_assoc]

def times (format : Format Symbol Value) (count : Nat) : Format Symbol (List Value) where
  admits values := values.length = count ∧ ∀ value ∈ values, format.admits value
  write values := values.flatMap format.write
  read := readTimes format count
  read_write := by
    rintro values rest ⟨rfl, admitted⟩
    exact read_times_write format values rest admitted
  write_read := write_read_times format count

end Combinators

end ThingyAccel.Formats
