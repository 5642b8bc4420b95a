import ThingyAccel.HeatshrinkMatch
import ThingyAccel.HeatshrinkOutput

/-!
One call of `heatshrink_encoder_poll` with a window of 512 and a lookahead of 8
bytes. The encoder refines the greedy parse: at every step the bits written so
far and the bits still owed for the current token spell a front of the parse,
and the rest of the parse starts where the token ends.
-/
namespace ThingyAccel.HeatshrinkPoll

open Memory Bits Lzss HeatshrinkEncoder HeatshrinkMatch HeatshrinkOutput

/-- The zeroed backlog of the fresh encoder, and the input behind it. -/
def history (input : List UInt8) : List UInt8 := List.replicate 512 0 ++ input

def tokensFrom (input : List UInt8) (position : Nat) : List Token :=
  greedy (history input) 512 8 1 (512 + position)

@[simp] theorem history_length (input : List UInt8) :
    (history input).length = 512 + input.length := by
  rw [history, List.length_append, List.length_replicate]

theorem tokens_end {input : List UInt8} {position : Nat} (past : input.length ≤ position) :
    tokensFrom input position = [] := greedy_end (by simp; omega)

theorem tokens_literal {input : List UInt8} {position : Nat} {byte : UInt8}
    (present : (history input)[512 + position]? = some byte)
    (short : (matchAt (history input) 512 8 (512 + position)).1 ≤ 1) :
    tokensFrom input position = .literal byte :: tokensFrom input (position + 1) :=
  greedy_literal present short

theorem tokens_backref {input : List UInt8} {position distance length : Nat}
    (inside : position < input.length)
    (best : matchAt (history input) 512 8 (512 + position) = (length, distance))
    (long : 1 < length) :
    tokensFrom input position = .backref distance length :: tokensFrom input (position + length) := by
  rw [tokensFrom, greedy_backref (by simp; omega) best long, Nat.add_assoc]
  rfl

theorem tokens_ne_nil {input : List UInt8} {position : Nat} (inside : position < input.length) :
    tokensFrom input position ≠ [] := greedy_ne_nil (by simp; omega)

/-- The buffer holds the 512 bytes before position `base` of the input and the
input bytes from there up to position `sunk`. -/
structure Geometry (input : List UInt8) (sunk : Nat) (hse : Encoder) (base : Nat) : Prop where
  windowBits : hse.windowSz2 = 9
  lookaheadBits : hse.lookaheadSz2 = 3
  capacity : hse.buffer.length = 1024
  inside : hse.inputSize ≤ 512
  total : base + hse.inputSize = sunk
  available : sunk ≤ input.length
  window : Stretch (history input) hse.buffer base (512 + hse.inputSize)
  finishing : isFinishing hse = true ↔ sunk = input.length

theorem geometry_inside {input : List UInt8} {sunk base : Nat} {hse : Encoder}
    (geometry : Geometry input sunk hse base) : base + hse.inputSize ≤ input.length := by
  rw [geometry.total]
  exact geometry.available

theorem geometry_finished {input : List UInt8} {sunk base : Nat} {hse : Encoder}
    (geometry : Geometry input sunk hse base) (finishing : isFinishing hse = true) :
    base + hse.inputSize = input.length := by
  rw [geometry.total]
  exact geometry.finishing.mp finishing

def frame (hse : Encoder) : Nat × Nat × List UInt8 × Nat × UInt8 × List Int :=
  (hse.windowSz2, hse.lookaheadSz2, hse.buffer, hse.inputSize, hse.flags, hse.searchIndex)

theorem geometry_frame {input : List UInt8} {sunk base : Nat} {hse next : Encoder}
    (geometry : Geometry input sunk hse base) (same : frame next = frame hse) :
    Geometry input sunk next base := by
  simp only [frame, Prod.mk.injEq] at same
  obtain ⟨windowBits, lookaheadBits, buffer, size, flags, -⟩ := same
  refine ⟨by rw [windowBits, geometry.windowBits], by rw [lookaheadBits, geometry.lookaheadBits],
    by rw [buffer, geometry.capacity], by rw [size]; exact geometry.inside,
    by rw [size]; exact geometry.total, geometry.available, by rw [buffer, size]; exact geometry.window,
    ?_⟩
  rw [← geometry.finishing, isFinishing, isFinishing, flags]

/-- A search never runs on a window that could still be filled. -/
def Active (hse : Encoder) : Prop := isFinishing hse = true ∨ hse.inputSize = 512

structure Searchable (hse : Encoder) : Prop where
  active : Active hse
  indexed : IndexExact hse.buffer hse.searchIndex (512 + hse.inputSize)

theorem searchable_frame {hse next : Encoder} (searchable : Searchable hse)
    (same : frame next = frame hse) : Searchable next := by
  simp only [frame, Prod.mk.injEq] at same
  obtain ⟨-, -, buffer, size, flags, index⟩ := same
  refine ⟨?_, by rw [buffer, size, index]; exact searchable.indexed⟩
  rw [Active, isFinishing, flags, size]
  exact searchable.active

def EndsLiteral (tokens : List Token) : Prop := ∃ front byte, tokens = front ++ [.literal byte]

def EndsBackref (tokens : List Token) : Prop :=
  ∃ front distance length, tokens = front ++ [.backref distance length]

theorem ends_exclusive {tokens : List Token} (backref : EndsBackref tokens) :
    ¬ EndsLiteral tokens := by
  rintro ⟨left, byte, asLiteral⟩
  obtain ⟨right, distance, length, asBackref⟩ := backref
  rw [asLiteral] at asBackref
  have last := (List.append_inj' asBackref rfl).2
  simp at last

structure Backref (hse : Encoder) : Prop where
  short : 2 ≤ hse.matchLength
  long : hse.matchLength ≤ 8
  inside : hse.matchScanIndex + hse.matchLength ≤ hse.inputSize
  near : 1 ≤ hse.matchPos
  far : hse.matchPos ≤ 512

structure Literal (hse : Encoder) : Prop where
  plain : hse.matchLength = 0
  positive : 1 ≤ hse.matchScanIndex
  inside : hse.matchScanIndex ≤ hse.inputSize

/-- Between tokens. With every allowed bit written the last token is a literal:
only the end of a back reference asks for one more free byte. -/
structure Between (allowance : Nat) (hse : Encoder) (spoken : List Token) (written : Nat) :
    Prop where
  plain : hse.matchLength = 0
  closed : written < 8 * allowance ∨ EndsLiteral spoken

def Shape (allowance : Nat) (hse : Encoder) (spoken : List Token) (written : Nat) : Prop :=
  match hse.state with
  | .notFull => Between allowance hse spoken written ∧ isFinishing hse = false ∧
      hse.inputSize < 512 ∧ hse.matchScanIndex = 0
  | .filled => Between allowance hse spoken written ∧ Active hse ∧ hse.matchScanIndex = 0
  | .search => Between allowance hse spoken written ∧ Searchable hse ∧
      hse.matchScanIndex ≤ hse.inputSize
  | .yieldTagBit => Searchable hse ∧
      (Literal hse ∧ EndsLiteral spoken ∨ Backref hse ∧ EndsBackref spoken)
  | .yieldLiteral => Searchable hse ∧ Literal hse ∧ EndsLiteral spoken
  | .yieldBrIndex => Searchable hse ∧ Backref hse ∧ EndsBackref spoken ∧ hse.outgoingBitsCount ≤ 9
  | .yieldBrLength => Searchable hse ∧ Backref hse ∧ EndsBackref spoken ∧ hse.outgoingBitsCount ≤ 3
  | .saveBacklog => Between allowance hse spoken written ∧ isFinishing hse = false ∧
      hse.inputSize = 512 ∧ 505 ≤ hse.matchScanIndex ∧ hse.matchScanIndex ≤ 512
  | .flushBits => Between allowance hse spoken written ∧ isFinishing hse = true ∧
      hse.matchScanIndex = hse.inputSize
  | .done => False

def literalByte (hse : Encoder) : UInt8 := hse.buffer.getD (512 + (hse.matchScanIndex - 1)) 0

/-- The bits of the current token that were not pushed yet. -/
def owed (hse : Encoder) : List Bool :=
  match hse.state with
  | .yieldTagBit =>
      if hse.matchLength = 0 then (Token.literal (literalByte hse)).bits 9 3
      else (Token.backref hse.matchPos hse.matchLength).bits 9 3
  | .yieldLiteral => ofByte (literalByte hse)
  | .yieldBrIndex =>
      ofNat hse.outgoingBitsCount hse.outgoingBits ++ ofNat 3 (hse.matchLength - 1)
  | .yieldBrLength => ofNat hse.outgoingBitsCount hse.outgoingBits
  | _ => []

def reached (base : Nat) (hse : Encoder) : Nat := base + hse.matchScanIndex + hse.matchLength

/-- The encoder, with the bytes `out` written so far, stands for a point of the
greedy parse: `spoken` are the tokens before and at that point. -/
structure Represents (input : List UInt8) (sunk allowance : Nat) (out : List UInt8) (hse : Encoder)
    (base : Nat) (spoken : List Token) (pending : List Bool) : Prop where
  geometry : Geometry input sunk hse base
  packed : Pending hse pending
  split : tokensFrom input 0 = spoken ++ tokensFrom input (reached base hse)
  bits : ofBytes out ++ pending ++ owed hse = stream 9 3 spoken
  shape : Shape allowance hse spoken (8 * out.length + pending.length)

def Inv (input : List UInt8) (sunk allowance : Nat) (out : List UInt8) (hse : Encoder) : Prop :=
  ∃ base spoken pending, Represents input sunk allowance out hse base spoken pending

structure Room (allowance : Nat) (prior : List UInt8) (oi : OutputInfo) : Prop where
  total : prior.length + oi.bufSize = allowance
  inside : oi.outputSize ≤ oi.bufSize

def Yields : HseState → Prop
  | .yieldTagBit | .yieldLiteral | .yieldBrIndex | .yieldBrLength => True
  | _ => False

def rounds (count : Nat) : Nat := if count = 0 then 0 else if count ≤ 8 then 1 else 2

/-- Rounds of the poll loop that are left: four for every byte not yet covered. -/
def effort (hse : Encoder) : Nat :=
  let left := 4 * (hse.inputSize - (hse.matchScanIndex + hse.matchLength))
  match hse.state with
  | .notFull | .done => 0
  | .filled => left + 3
  | .search => left + 2
  | .yieldTagBit => if hse.matchLength = 0 then left + 4 else left + 9
  | .yieldLiteral => left + 3
  | .yieldBrIndex => left + 6 + rounds hse.outgoingBitsCount
  | .yieldBrLength => left + 3 + rounds hse.outgoingBitsCount
  | .saveBacklog | .flushBits => 1

theorem effort_bound (hse : Encoder) : effort hse < pollFuel hse := by
  simp only [effort, rounds, pollFuel]
  split <;> (repeat' split) <;> omega

/-- A round that does not return: the invariant holds again, and either work was
done or the call is stuck on a full buffer. -/
structure Advance (input : List UInt8) (sunk allowance : Nat) (prior : List UInt8)
    (hse : Encoder) (hse' : Encoder) (oi' : OutputInfo) : Prop where
  inv : Inv input sunk allowance (prior ++ oi'.buf) hse'
  room : Room allowance prior oi'
  progress : effort hse' < effort hse ∨ hse'.state = hse.state ∧ oi'.outputSize = oi'.bufSize
  same : hse'.state = hse.state → Yields hse.state

/-! One lemma for each state of the poll loop. -/
section Steps

variable {input prior : List UInt8} {sunk allowance base : Nat} {hse : Encoder} {oi : OutputInfo}
  {spoken : List Token} {pending : List Bool}

theorem buffer_byte (geometry : Geometry input sunk hse base) {offset : Nat}
    (inside : offset < hse.inputSize) :
    ∃ byte, hse.buffer[512 + offset]? = some byte ∧
      (history input)[512 + (base + offset)]? = some byte := by
  have bound := geometry_inside geometry
  have present := List.getElem?_eq_getElem
    (by rw [history_length]; omega : 512 + (base + offset) < (history input).length)
  refine ⟨_, ?_, present⟩
  have shifted : base + (512 + offset) = 512 + (base + offset) := by omega
  rw [geometry.window (512 + offset) (by omega), shifted, present]

theorem step_filled (state : hse.state = .filled)
    (stands : Represents input sunk allowance (prior ++ oi.buf) hse base spoken pending)
    (room : Room allowance prior oi) :
    ∃ hse', pollStep hse oi = .ok (none, hse', oi) ∧ Advance input sunk allowance prior hse hse' oi := by
  obtain ⟨geometry, packed, split, bits, shape⟩ := stands
  simp only [Shape, state] at shape
  obtain ⟨between, active, start⟩ := shape
  have offset : getInputOffset hse = 512 := by
    simp [getInputOffset, getInputBufferSize, geometry.windowBits]
  have size := geometry.inside
  obtain ⟨index, indexed, exact⟩ :=
    do_indexing_exact hse (by rw [offset, geometry.capacity]; omega)
  rw [offset] at exact
  refine ⟨{ hse with searchIndex := index, state := .search }, ?_, ?_⟩
  · simp only [pollStep, state, indexed, checked_bind]
  · refine ⟨⟨base, spoken, pending, ?_⟩, room, Or.inl ?_, ?_⟩
    · refine ⟨⟨geometry.windowBits, geometry.lookaheadBits, geometry.capacity, geometry.inside,
        geometry.total, geometry.available, geometry.window, geometry.finishing⟩,
        ⟨packed.short, packed.mask, packed.byte⟩, split, ?_, ?_⟩
      · simpa [owed, state] using bits
      · exact ⟨⟨between.plain, between.closed⟩, ⟨active, exact⟩, by simp [start]⟩
    · simp [effort, state]
    · simp [state]

theorem search_finds (geometry : Geometry input sunk hse base) (searchable : Searchable hse)
    (more : hse.matchScanIndex < hse.inputSize)
    (deep : isFinishing hse = true ∨ hse.matchScanIndex ≤ 504) :
    let best := matchAt (history input) 512 8 (512 + (base + hse.matchScanIndex))
    findLongestMatch hse (getInputOffset hse + hse.matchScanIndex - getInputBufferSize hse)
        (getInputOffset hse + hse.matchScanIndex)
        (if hse.inputSize - hse.matchScanIndex < getLookaheadSize hse
          then hse.inputSize - hse.matchScanIndex else getLookaheadSize hse) =
      .ok (if 1 < best.1 then (best.2, best.1) else (matchNotFound, 0)) ∧
      best.1 ≤ 8 ∧ hse.matchScanIndex + best.1 ≤ hse.inputSize ∧ best.2 ≤ 512 ∧
      (0 < best.1 → 1 ≤ best.2) := by
  have size := geometry.inside
  have reach := geometry_inside geometry
  have offset : getInputOffset hse = 512 := by
    simp [getInputOffset, getInputBufferSize, geometry.windowBits]
  have window : getInputBufferSize hse = 512 := by
    simp [getInputBufferSize, geometry.windowBits]
  have lookahead : getLookaheadSize hse = 8 := by
    simp [getLookaheadSize, geometry.lookaheadBits]
  have left : 512 + hse.matchScanIndex - 512 = hse.matchScanIndex := by omega
  have limit : (if hse.inputSize - hse.matchScanIndex < 8
      then hse.inputSize - hse.matchScanIndex else 8) =
      min 8 ((history input).length - (512 + (base + hse.matchScanIndex))) := by
    rw [history_length]
    rcases deep with finishing | early
    -- At the end of the input the window ends where the data does.
    · have total := geometry_finished geometry finishing
      split <;> omega
    · rcases searchable.active with finishing | full
      · have total := geometry_finished geometry finishing
        split <;> omega
      · rw [if_neg (by omega)]
        omega
  have bounded : hse.matchScanIndex +
      min 8 ((history input).length - (512 + (base + hse.matchScanIndex))) ≤ hse.inputSize := by
    rw [← limit]
    split <;> omega
  have indexed : IndexExact hse.buffer hse.searchIndex (512 + hse.matchScanIndex + 1) :=
    fun position bound => searchable.indexed position (by omega)
  have positive : 1 ≤ min 8 ((history input).length - (512 + (base + hse.matchScanIndex))) := by
    rw [history_length]
    omega
  have same := best_match_stretch geometry.window (512 + hse.matchScanIndex)
    (min 8 ((history input).length - (512 + (base + hse.matchScanIndex)))) 512 (by omega) (by omega)
  have shifted : base + (512 + hse.matchScanIndex) = 512 + (base + hse.matchScanIndex) := by omega
  rw [shifted, ← matchAt] at same
  have sound := best_match_sound (history input) (512 + (base + hse.matchScanIndex))
    (min 8 ((history input).length - (512 + (base + hse.matchScanIndex)))) 512
  rw [← matchAt] at sound
  obtain ⟨within, near, backward, -⟩ := sound
  refine ⟨?_, by omega, by omega, near, backward⟩
  rw [offset, window, lookahead, limit, left,
    find_longest_match_exact (by omega) positive (by rw [geometry.capacity]; omega) indexed,
    geometry.windowBits, geometry.lookaheadBits]
  have width : 512 + hse.matchScanIndex - hse.matchScanIndex = 512 := by omega
  rw [width, same]

theorem step_search_exhausted (state : hse.state = .search)
    (stands : Represents input sunk allowance (prior ++ oi.buf) hse base spoken pending)
    (room : Room allowance prior oi)
    (exhausted : (hse.inputSize : Int) - (if isFinishing hse then 1 else 8 : Nat) <
      hse.matchScanIndex) :
    ∃ hse', pollStep hse oi = .ok (none, hse', oi) ∧ Advance input sunk allowance prior hse hse' oi := by
  obtain ⟨geometry, packed, split, bits, shape⟩ := stands
  simp only [Shape, state] at shape
  obtain ⟨between, searchable, within⟩ := shape
  simp only [owed, state, List.append_nil] at bits
  have lookahead : getLookaheadSize hse = 8 := by
    simp [getLookaheadSize, geometry.lookaheadBits]
  have computed : stStepSearch hse =
      .ok (if isFinishing hse then .flushBits else .saveBacklog, hse) := by
    simp only [stStepSearch, lookahead]
    rw [if_pos exhausted]
  refine ⟨{ hse with state := if isFinishing hse then .flushBits else .saveBacklog }, ?_, ?_⟩
  · simp only [pollStep, state, computed, checked_bind]
  · by_cases finishing : isFinishing hse = true
    · rw [if_pos finishing] at exhausted ⊢
      refine ⟨⟨base, spoken, pending, geometry_frame geometry rfl,
        ⟨packed.short, packed.mask, packed.byte⟩, split, by simpa [owed] using bits,
        ⟨between.plain, between.closed⟩, finishing, by simp only; omega⟩, room, Or.inl ?_, ?_⟩
      · simp only [effort, state]; omega
      · simp [state]
    · rw [if_neg finishing] at exhausted ⊢
      have full : hse.inputSize = 512 := by
        rcases searchable.active with impossible | full
        · exact absurd impossible finishing
        · exact full
      refine ⟨⟨base, spoken, pending, geometry_frame geometry rfl,
        ⟨packed.short, packed.mask, packed.byte⟩, split, by simpa [owed] using bits,
        ⟨between.plain, between.closed⟩, Bool.eq_false_iff.mpr finishing, full,
        by simp only; omega, by simp only; omega⟩, room, Or.inl ?_, ?_⟩
      · simp only [effort, state]; omega
      · simp [state]

theorem step_search_backref (state : hse.state = .search)
    (stands : Represents input sunk allowance (prior ++ oi.buf) hse base spoken pending)
    (room : Room allowance prior oi)
    (more : hse.matchScanIndex < hse.inputSize)
    (deep : isFinishing hse = true ∨ hse.matchScanIndex ≤ 504)
    (worth : 1 < (matchAt (history input) 512 8 (512 + (base + hse.matchScanIndex))).1)
    (open' : ¬ (hse.inputSize : Int) - (if isFinishing hse then 1 else getLookaheadSize hse : Nat) <
      hse.matchScanIndex) :
    ∃ hse', pollStep hse oi = .ok (none, hse', oi) ∧ Advance input sunk allowance prior hse hse' oi := by
  obtain ⟨geometry, packed, split, bits, shape⟩ := stands
  simp only [Shape, state] at shape
  obtain ⟨between, searchable, within⟩ := shape
  have plain := between.plain
  simp only [owed, state, List.append_nil] at bits
  rw [reached, plain, Nat.add_zero] at split
  obtain ⟨found, short, inside, far, near⟩ := search_finds geometry searchable more deep
  rcases best : matchAt (history input) 512 8 (512 + (base + hse.matchScanIndex)) with
    ⟨length, distance⟩
  rw [best] at found short inside far near worth
  simp only at found short inside far near worth
  have parsed : tokensFrom input (base + hse.matchScanIndex) =
      .backref distance length :: tokensFrom input (base + hse.matchScanIndex + length) :=
    tokens_backref (by have := geometry_inside geometry; omega) best worth
  have nonzero : length ≠ 0 := by omega
  rw [if_pos worth] at found
  refine ⟨{ hse with matchPos := distance, matchLength := length, state := .yieldTagBit }, ?_, ?_⟩
  · have computed : stStepSearch hse =
        .ok (.yieldTagBit, { hse with matchPos := distance, matchLength := length }) := by
      have known : distance ≠ matchNotFound := by simp only [matchNotFound]; omega
      simp only [stStepSearch]
      rw [if_neg open', found, checked_bind]
      simp only [known, ↓reduceIte]
    simp only [pollStep, state, computed, checked_bind]
  · refine ⟨⟨base, spoken ++ [.backref distance length], pending, geometry_frame geometry rfl,
      ⟨packed.short, packed.mask, packed.byte⟩, ?_, ?_, ⟨searchable_frame searchable rfl,
        Or.inr ⟨⟨by simp only; omega, short, inside, near (by omega), far⟩,
          spoken, distance, length, rfl⟩⟩⟩, room, Or.inl ?_, ?_⟩
    · rw [split, parsed, List.append_assoc]
      rfl
    · simp only [owed, nonzero, ↓reduceIte, stream_append, bits]
      simp [stream]
    · simp only [effort, state, nonzero, ↓reduceIte, plain]
      omega
    · simp [state]

theorem step_search_literal (state : hse.state = .search)
    (stands : Represents input sunk allowance (prior ++ oi.buf) hse base spoken pending)
    (room : Room allowance prior oi)
    (more : hse.matchScanIndex < hse.inputSize)
    (deep : isFinishing hse = true ∨ hse.matchScanIndex ≤ 504)
    (worth : ¬ 1 < (matchAt (history input) 512 8 (512 + (base + hse.matchScanIndex))).1)
    (open' : ¬ (hse.inputSize : Int) - (if isFinishing hse then 1 else getLookaheadSize hse : Nat) <
      hse.matchScanIndex) :
    ∃ hse', pollStep hse oi = .ok (none, hse', oi) ∧ Advance input sunk allowance prior hse hse' oi := by
  obtain ⟨geometry, packed, split, bits, shape⟩ := stands
  simp only [Shape, state] at shape
  obtain ⟨between, searchable, within⟩ := shape
  have plain := between.plain
  simp only [owed, state, List.append_nil] at bits
  rw [reached, plain, Nat.add_zero] at split
  obtain ⟨byte, present, source⟩ := buffer_byte geometry more
  have found := (search_finds geometry searchable more deep).1
  have parsed : tokensFrom input (base + hse.matchScanIndex) =
      .literal byte :: tokensFrom input (base + hse.matchScanIndex + 1) :=
    tokens_literal source (Nat.le_of_not_lt worth)
  have loaded : hse.buffer.getD (512 + hse.matchScanIndex) 0 = byte := by
    rw [List.getD_eq_getElem?_getD, present]; rfl
  rw [if_neg worth] at found
  refine ⟨{ hse with
      matchScanIndex := hse.matchScanIndex + 1, matchLength := 0, state := .yieldTagBit }, ?_, ?_⟩
  · have computed : stStepSearch hse = .ok (.yieldTagBit,
        { hse with matchScanIndex := hse.matchScanIndex + 1, matchLength := 0 }) := by
      simp only [stStepSearch]
      rw [if_neg open', found, checked_bind]
      simp only [↓reduceIte]
    simp only [pollStep, state, computed, checked_bind]
  · refine ⟨⟨base, spoken ++ [.literal byte], pending, geometry_frame geometry rfl,
      ⟨packed.short, packed.mask, packed.byte⟩, ?_, ?_, ⟨searchable_frame searchable rfl,
        Or.inl ⟨⟨rfl, by simp, by simp only; omega⟩, spoken, byte, rfl⟩⟩⟩, room, Or.inl ?_, ?_⟩
    · rw [split, parsed, List.append_assoc]
      rfl
    · simp only [owed, ↓reduceIte, literalByte, Nat.add_sub_cancel, loaded, stream_append, bits]
      simp [stream]
    · simp only [effort, state, ↓reduceIte, plain]
      omega
    · simp [state]

theorem step_search (state : hse.state = .search)
    (stands : Represents input sunk allowance (prior ++ oi.buf) hse base spoken pending)
    (room : Room allowance prior oi) :
    ∃ hse', pollStep hse oi = .ok (none, hse', oi) ∧ Advance input sunk allowance prior hse hse' oi := by
  have geometry := stands.geometry
  have size := geometry.inside
  have lookahead : getLookaheadSize hse = 8 := by
    simp [getLookaheadSize, geometry.lookaheadBits]
  by_cases exhausted : (hse.inputSize : Int) - (if isFinishing hse then 1 else 8 : Nat) <
      hse.matchScanIndex
  · exact step_search_exhausted state stands room exhausted
  · have more : hse.matchScanIndex < hse.inputSize := by
      split at exhausted <;> omega
    have deep : isFinishing hse = true ∨ hse.matchScanIndex ≤ 504 := by
      by_cases finishing : isFinishing hse = true
      · exact Or.inl finishing
      · rw [if_neg finishing] at exhausted
        exact Or.inr (by omega)
    rw [← lookahead] at exhausted
    by_cases worth : 1 < (matchAt (history input) 512 8 (512 + (base + hse.matchScanIndex))).1
    · exact step_search_backref state stands room more deep worth exhausted
    · exact step_search_literal state stands room more deep worth exhausted

theorem byte_free {oi : OutputInfo} (free : canTakeByte oi = true) : oi.outputSize < oi.bufSize :=
  of_decide_eq_true free

/-- One free byte of the call is one byte short of the allowance. -/
theorem room_left (room : Room allowance prior oi) (free : oi.outputSize < oi.bufSize)
    (short : pending.length < 8) : 8 * (prior ++ oi.buf).length + pending.length < 8 * allowance := by
  have total := room.total
  simp only [OutputInfo.outputSize] at free
  rw [List.length_append]
  omega

theorem pushed_after {pushed : List Bool} {next : Encoder × OutputInfo}
    (room : Room allowance prior oi) (done : Pushed hse oi pending pushed next) :
    Room allowance prior next.2 ∧ ∃ waiting, Pending next.1 waiting ∧
      ofBytes (prior ++ next.2.buf) ++ waiting = ofBytes (prior ++ oi.buf) ++ pending ++ pushed := by
  obtain ⟨waiting, packed, appended⟩ := done.bits
  refine ⟨⟨by rw [done.limit]; exact room.total, by rw [done.limit]; exact done.room⟩, waiting,
    packed, ?_⟩
  rw [of_bytes_append, of_bytes_append, List.append_assoc, appended]
  simp

theorem yield_waits {oi : OutputInfo} (yields : Yields hse.state) (stuck : canTakeByte oi = false) :
    pollStep hse oi = .ok (none, hse, oi) := by
  cases state : hse.state with
  | yieldTagBit =>
      simp only [pollStep, state, stYieldTagBit, stuck]
      rw [← state]
      rfl
  | yieldLiteral =>
      simp only [pollStep, state, stYieldLiteral, stuck]
      rw [← state]
      rfl
  | yieldBrIndex =>
      simp only [pollStep, state, stYieldBrIndex, stuck]
      rw [← state]
      rfl
  | yieldBrLength =>
      simp only [pollStep, state, stYieldBrLength, stuck]
      rw [← state]
      rfl
  | notFull | filled | search | saveBacklog | flushBits | done =>
      rw [state] at yields
      exact yields.elim

theorem stalled_step (yields : Yields hse.state)
    (stands : Represents input sunk allowance (prior ++ oi.buf) hse base spoken pending)
    (room : Room allowance prior oi) (stuck : canTakeByte oi = false) :
    ∃ hse' oi', pollStep hse oi = .ok (none, hse', oi') ∧
      Advance input sunk allowance prior hse hse' oi' := by
  have full : oi.outputSize = oi.bufSize := by
    simp only [canTakeByte, decide_eq_false_iff_not] at stuck
    have inside := room.inside
    omega
  exact ⟨hse, oi, yield_waits yields stuck, ⟨base, spoken, pending, stands⟩, room,
    Or.inr ⟨rfl, full⟩, fun _ => yields⟩

theorem step_yield_tag_bit (state : hse.state = .yieldTagBit)
    (stands : Represents input sunk allowance (prior ++ oi.buf) hse base spoken pending)
    (room : Room allowance prior oi) :
    ∃ hse' oi', pollStep hse oi = .ok (none, hse', oi') ∧
      Advance input sunk allowance prior hse hse' oi' := by
  by_cases free : canTakeByte oi = true
  case neg =>
    exact stalled_step (by rw [state]; trivial) stands room (by simpa using free)
  case pos =>
    have open' := byte_free free
    obtain ⟨geometry, packed, split, bits, shape⟩ := stands
    simp only [Shape, state] at shape
    obtain ⟨searchable, kind⟩ := shape
    rcases kind with ⟨literal, ends⟩ | ⟨backref, ends⟩
    · have plain := literal.plain
      -- The tag bit moves from the owed bits to the written ones.
      obtain ⟨next, computed, done⟩ :=
        push_bits_exact literalMarker 1 hse oi pending packed (by omega) open'
      obtain ⟨room', waiting, packed', appended⟩ := pushed_after room done
      obtain ⟨byte, mask, same⟩ := done.frame
      refine ⟨{ next.1 with state := .yieldLiteral }, next.2, ?_, ?_⟩
      · simp only [pollStep, state, stYieldTagBit, free, plain, addTagBit, computed, checked_bind,
          ↓reduceIte]
      · rw [same] at packed' ⊢
        refine ⟨⟨base, spoken, waiting, geometry_frame geometry rfl,
          ⟨packed'.short, packed'.mask, packed'.byte⟩, split, ?_,
          searchable_frame searchable rfl, ⟨plain, literal.positive, literal.inside⟩, ends⟩,
          room', Or.inl ?_, ?_⟩
        · rw [appended, ← bits]
          simp [owed, state, plain, Token.bits, literalMarker, ofNat, literalByte, withByte]
        · simp [effort, state, plain, withByte]
        · simp [state]
    · have nonzero : hse.matchLength ≠ 0 := by have := backref.short; omega
      obtain ⟨next, computed, done⟩ :=
        push_bits_exact backrefMarker 1 hse oi pending packed (by omega) open'
      obtain ⟨room', waiting, packed', appended⟩ := pushed_after room done
      obtain ⟨byte, mask, same⟩ := done.frame
      refine ⟨{ next.1 with
        outgoingBits := next.1.matchPos - 1, outgoingBitsCount := next.1.windowSz2,
        state := .yieldBrIndex }, next.2, ?_, ?_⟩
      · simp only [pollStep, state, stYieldTagBit, free, nonzero, addTagBit, computed, checked_bind,
          ↓reduceIte]
      · rw [same] at packed' ⊢
        refine ⟨⟨base, spoken, waiting, geometry_frame geometry rfl,
          ⟨packed'.short, packed'.mask, packed'.byte⟩, split, ?_,
          searchable_frame searchable rfl,
          ⟨backref.short, backref.long, backref.inside, backref.near, backref.far⟩, ends,
          by simp [withByte, geometry.windowBits]⟩, room', Or.inl ?_, ?_⟩
        · rw [appended, ← bits]
          simp [owed, state, nonzero, Token.bits, backrefMarker, ofNat, withByte,
            geometry.windowBits]
        · simp [effort, rounds, state, nonzero, withByte, geometry.windowBits]
        · simp [state]

theorem step_yield_literal (state : hse.state = .yieldLiteral)
    (stands : Represents input sunk allowance (prior ++ oi.buf) hse base spoken pending)
    (room : Room allowance prior oi) :
    ∃ hse' oi', pollStep hse oi = .ok (none, hse', oi') ∧
      Advance input sunk allowance prior hse hse' oi' := by
  by_cases free : canTakeByte oi = true
  case neg =>
    exact stalled_step (by rw [state]; trivial) stands room (by simpa using free)
  case pos =>
    have open' := byte_free free
    obtain ⟨geometry, packed, split, bits, shape⟩ := stands
    simp only [Shape, state] at shape
    obtain ⟨searchable, ⟨plain, positive, within⟩, ends⟩ := shape
    have offset : getInputOffset hse = 512 := by
      simp [getInputOffset, getInputBufferSize, geometry.windowBits]
    have searched : hse.matchScanIndex - 1 < hse.inputSize := by omega
    obtain ⟨byte, present, -⟩ := buffer_byte geometry searched
    have loaded : literalByte hse = byte := by
      rw [literalByte, List.getD_eq_getElem?_getD, present]; rfl
    obtain ⟨next, computed, done⟩ := push_bits_exact byte 8 hse oi pending packed (by omega) open'
    obtain ⟨room', waiting, packed', appended⟩ := pushed_after room done
    obtain ⟨current, mask, same⟩ := done.frame
    refine ⟨{ next.1 with state := .search }, next.2, ?_, ?_⟩
    · simp only [pollStep, state, stYieldLiteral, free, pushLiteralByte, offset,
        read_at_some present, computed, checked_bind, ↓reduceIte]
    · rw [same] at packed' ⊢
      refine ⟨⟨base, spoken, waiting, geometry_frame geometry rfl,
        ⟨packed'.short, packed'.mask, packed'.byte⟩, split, ?_, ⟨plain, Or.inr ends⟩,
        searchable_frame searchable rfl, within⟩, room', Or.inl ?_, ?_⟩
      · rw [appended, ← bits]
        simp [owed, state, loaded, ofByte]
      · simp [effort, state, withByte]
      · simp [state]

theorem outgoing_after (packed : Pending hse pending) (room : Room allowance prior oi)
    (free : oi.outputSize < oi.bufSize) (queued : 0 < hse.outgoingBitsCount) :
    ∃ current mask oi' waiting,
      pushOutgoingBits hse oi = .ok (min 8 hse.outgoingBitsCount,
        { withByte hse current mask with
          outgoingBitsCount := hse.outgoingBitsCount - min 8 hse.outgoingBitsCount }, oi') ∧
      Room allowance prior oi' ∧ Pending (withByte hse current mask) waiting ∧
      ofBytes (prior ++ oi'.buf) ++ waiting ++
          ofNat (hse.outgoingBitsCount - min 8 hse.outgoingBitsCount) hse.outgoingBits =
        ofBytes (prior ++ oi.buf) ++ pending ++ ofNat hse.outgoingBitsCount hse.outgoingBits := by
  obtain ⟨next, computed, done⟩ := push_outgoing_bits_exact hse oi pending packed free queued
  obtain ⟨room', waiting, packed', appended⟩ := pushed_after room done
  obtain ⟨current, mask, same⟩ := done.frame
  refine ⟨current, mask, next.2, waiting, ?_, room', by rw [← same]; exact packed', ?_⟩
  · rw [computed, same]
  · have halves := of_nat_add (min 8 hse.outgoingBitsCount)
      (hse.outgoingBitsCount - min 8 hse.outgoingBitsCount) hse.outgoingBits
    have total : min 8 hse.outgoingBitsCount +
        (hse.outgoingBitsCount - min 8 hse.outgoingBitsCount) = hse.outgoingBitsCount := by omega
    rw [total] at halves
    rw [appended, halves]
    simp

theorem step_yield_br_index (state : hse.state = .yieldBrIndex)
    (stands : Represents input sunk allowance (prior ++ oi.buf) hse base spoken pending)
    (room : Room allowance prior oi) :
    ∃ hse' oi', pollStep hse oi = .ok (none, hse', oi') ∧
      Advance input sunk allowance prior hse hse' oi' := by
  by_cases free : canTakeByte oi = true
  case neg =>
    exact stalled_step (by rw [state]; trivial) stands room (by simpa using free)
  case pos =>
    have open' := byte_free free
    obtain ⟨geometry, packed, split, bits, shape⟩ := stands
    simp only [Shape, state] at shape
    obtain ⟨searchable, backref, ends, count⟩ := shape
    simp only [owed, state] at bits
    by_cases queued : 0 < hse.outgoingBitsCount
    · obtain ⟨current, mask, oi', waiting, computed, room', packed', moved⟩ :=
        outgoing_after packed room open' queued
      refine ⟨{ withByte hse current mask with
        outgoingBitsCount := hse.outgoingBitsCount - min 8 hse.outgoingBitsCount,
        state := .yieldBrIndex }, oi', ?_, ?_⟩
      · have some' : 0 < min 8 hse.outgoingBitsCount := by omega
        simp only [pollStep, state, stYieldBrIndex, free, computed, checked_bind, some', ↓reduceIte]
      · refine ⟨⟨base, spoken, waiting, geometry_frame geometry rfl,
          ⟨packed'.short, packed'.mask, packed'.byte⟩, split, ?_,
          searchable_frame searchable rfl,
          ⟨backref.short, backref.long, backref.inside, backref.near, backref.far⟩, ends,
          by simp only; omega⟩, room', Or.inl ?_, ?_⟩
        · rw [← bits]
          simp only [owed, withByte, ← List.append_assoc] at moved ⊢
          rw [moved]
        · simp only [effort, rounds, state, withByte]
          split <;> split <;> (repeat' split) <;> omega
        · rw [state]; exact fun _ => trivial
    · have nothing : hse.outgoingBitsCount = 0 := by omega
      refine ⟨{ hse with
        outgoingBits := hse.matchLength - 1, outgoingBitsCount := hse.lookaheadSz2,
        state := .yieldBrLength }, oi, ?_, ?_⟩
      · simp only [pollStep, state, stYieldBrIndex, free, push_outgoing_bits_none hse oi nothing,
          checked_bind, Nat.lt_irrefl, ↓reduceIte]
      · refine ⟨⟨base, spoken, pending, geometry_frame geometry rfl,
          ⟨packed.short, packed.mask, packed.byte⟩, split, ?_,
          searchable_frame searchable rfl,
          ⟨backref.short, backref.long, backref.inside, backref.near, backref.far⟩, ends,
          by simp [geometry.lookaheadBits]⟩, room, Or.inl ?_, ?_⟩
        · simpa [owed, nothing, ofNat, geometry.lookaheadBits] using bits
        · simp [effort, rounds, state, nothing, geometry.lookaheadBits]
        · simp [state]

theorem step_yield_br_length (state : hse.state = .yieldBrLength)
    (stands : Represents input sunk allowance (prior ++ oi.buf) hse base spoken pending)
    (room : Room allowance prior oi) :
    ∃ hse' oi', pollStep hse oi = .ok (none, hse', oi') ∧
      Advance input sunk allowance prior hse hse' oi' := by
  by_cases free : canTakeByte oi = true
  case neg =>
    exact stalled_step (by rw [state]; trivial) stands room (by simpa using free)
  case pos =>
    have open' := byte_free free
    obtain ⟨geometry, packed, split, bits, shape⟩ := stands
    simp only [Shape, state] at shape
    obtain ⟨searchable, backref, ends, count⟩ := shape
    simp only [owed, state] at bits
    by_cases queued : 0 < hse.outgoingBitsCount
    · obtain ⟨current, mask, oi', waiting, computed, room', packed', moved⟩ :=
        outgoing_after packed room open' queued
      refine ⟨{ withByte hse current mask with
        outgoingBitsCount := hse.outgoingBitsCount - min 8 hse.outgoingBitsCount,
        state := .yieldBrLength }, oi', ?_, ?_⟩
      · have some' : 0 < min 8 hse.outgoingBitsCount := by omega
        simp only [pollStep, state, stYieldBrLength, free, computed, checked_bind, some',
          ↓reduceIte]
      · refine ⟨⟨base, spoken, waiting, geometry_frame geometry rfl,
          ⟨packed'.short, packed'.mask, packed'.byte⟩, split, ?_,
          searchable_frame searchable rfl,
          ⟨backref.short, backref.long, backref.inside, backref.near, backref.far⟩, ends,
          by simp only; omega⟩, room', Or.inl ?_, ?_⟩
        · rw [← bits]
          simp only [owed, withByte] at moved ⊢
          rw [moved]
        · simp only [effort, rounds, state, withByte]
          split <;> split <;> (repeat' split) <;> omega
        · rw [state]; exact fun _ => trivial
    · have nothing : hse.outgoingBitsCount = 0 := by omega
      -- The free byte that this state asked for keeps the allowance open.
      have written := room_left room open' packed.short
      refine ⟨{ hse with
        matchScanIndex := hse.matchScanIndex + hse.matchLength, matchLength := 0,
        state := .search }, oi, ?_, ?_⟩
      · simp only [pollStep, state, stYieldBrLength, free, push_outgoing_bits_none hse oi nothing,
          checked_bind, Nat.lt_irrefl, ↓reduceIte]
      · refine ⟨⟨base, spoken, pending, geometry_frame geometry rfl,
          ⟨packed.short, packed.mask, packed.byte⟩, ?_, ?_, ⟨rfl, Or.inl written⟩,
          searchable_frame searchable rfl, backref.inside⟩, room, Or.inl ?_, ?_⟩
        · rw [split]
          simp [reached, Nat.add_assoc]
        · simpa [owed, nothing, ofNat] using bits
        · simp [effort, state]
          omega
        · simp [state]

theorem step_save_backlog (state : hse.state = .saveBacklog)
    (stands : Represents input sunk allowance (prior ++ oi.buf) hse base spoken pending)
    (room : Room allowance prior oi) :
    ∃ hse', pollStep hse oi = .ok (none, hse', oi) ∧ Advance input sunk allowance prior hse hse' oi := by
  obtain ⟨geometry, packed, split, bits, shape⟩ := stands
  simp only [Shape, state] at shape
  obtain ⟨between, running, full, deep, within⟩ := shape
  have capacity := geometry.capacity
  have reach := geometry_inside geometry
  have window : getInputBufferSize hse = 512 := by
    simp [getInputBufferSize, geometry.windowBits]
  -- The shift moves the base by what has been searched.
  obtain ⟨rem, total⟩ : ∃ rem, hse.matchScanIndex + rem = 512 := ⟨512 - hse.matchScanIndex, by omega⟩
  have rest : 512 - hse.matchScanIndex = rem := by omega
  have searched : 512 - rem = hse.matchScanIndex := by omega
  have moved : ((hse.buffer.drop hse.matchScanIndex).take (512 + rem)).length = 512 + rem := by
    rw [List.length_take, List.length_drop]; omega
  have fits : 0 + ((hse.buffer.drop hse.matchScanIndex).take (512 + rem)).length ≤
      hse.buffer.length := by omega
  refine ⟨{ hse with
    buffer := hse.buffer.take 0 ++ (hse.buffer.drop hse.matchScanIndex).take (512 + rem) ++
      hse.buffer.drop (0 + ((hse.buffer.drop hse.matchScanIndex).take (512 + rem)).length)
    matchScanIndex := 0, inputSize := hse.inputSize - hse.matchScanIndex, state := .notFull },
    ?_, ?_⟩
  · simp only [pollStep, state, stSaveBacklog, saveBacklog, window, rest, searched]
    rw [if_neg (by omega), write_at_inside fits]
    rfl
  · refine ⟨⟨base + hse.matchScanIndex, spoken, pending, ⟨geometry.windowBits,
      geometry.lookaheadBits, ?_, ?_, ?_, geometry.available, ?_, ?_⟩,
      ⟨packed.short, packed.mask, packed.byte⟩, ?_, ?_, ⟨between.plain, between.closed⟩,
      running, ?_, rfl⟩, room, Or.inl ?_, ?_⟩
    · simp only [written_length fits, capacity]
    · simp only; omega
    · have total' := geometry.total
      simp only
      omega
    · intro index bound
      simp only at bound ⊢
      rw [written_get fits, moved, if_neg (by omega), if_pos (by omega), Nat.sub_zero,
        List.getElem?_take_of_lt (by omega), List.getElem?_drop,
        geometry.window (hse.matchScanIndex + index) (by omega), Nat.add_assoc]
    · exact geometry.finishing
    · rw [split]
      simp [reached]
    · simpa [owed, state] using bits
    · simp only; omega
    · simp [effort, state]
    · simp [state]

end Steps

/-- The whole stream is out: the bits of the parse and the padding of its last
byte. A stream that ends with its allowance ends with a literal. -/
structure Finished (input : List UInt8) (allowance : Nat) (out : List UInt8) : Prop where
  spelled : ∃ padding < 8,
    ofBytes out = stream 9 3 (tokensFrom input 0) ++ List.replicate padding false
  closed : (stream 9 3 (tokensFrom input 0)).length < 8 * allowance ∨
    EndsLiteral (tokensFrom input 0)

inductive Outcome (input : List UInt8) (sunk allowance : Nat) (out : List UInt8) :
    PollRes → Encoder → Prop where
  | waiting {hse : Encoder} (state : hse.state = .notFull) (inv : Inv input sunk allowance out hse) :
      Outcome input sunk allowance out .empty hse
  | finished {hse : Encoder} (state : hse.state = .done)
      (searched : hse.matchScanIndex = hse.inputSize) (sunkAll : sunk = input.length)
      (finished : Finished input allowance out) : Outcome input sunk allowance out .empty hse
  | unflushed {hse : Encoder} (state : hse.state = .flushBits)
      (inv : Inv input sunk allowance out hse) (full : out.length = allowance)
      (waiting : hse.bitIndex ≠ 0x80) : Outcome input sunk allowance out .empty hse
  | full {hse : Encoder} (yields : Yields hse.state) (inv : Inv input sunk allowance out hse)
      (full : out.length = allowance) : Outcome input sunk allowance out .more hse

section Run

variable {input prior : List UInt8} {sunk allowance : Nat} {hse : Encoder} {oi : OutputInfo}

theorem room_full (room : Room allowance prior oi) (full : oi.outputSize = oi.bufSize) :
    (prior ++ oi.buf).length = allowance := by
  rw [List.length_append, ← room.total, ← full]
  rfl

theorem step_flush_bits (state : hse.state = .flushBits)
    (inv : Inv input sunk allowance (prior ++ oi.buf) hse) (room : Room allowance prior oi) :
    ∃ hse' oi', pollStep hse oi = .ok (some .empty, hse', oi') ∧ Room allowance prior oi' ∧
      Outcome input sunk allowance (prior ++ oi'.buf) .empty hse' := by
  obtain ⟨base, spoken, pending, stands⟩ := inv
  obtain ⟨geometry, packed, split, bits, shape⟩ := id stands
  simp only [Shape, state] at shape
  obtain ⟨between, finishing, searched⟩ := shape
  have all : sunk = input.length := geometry.finishing.mp finishing
  have total := geometry_finished geometry finishing
  -- The input is searched to its end, so every token has been spoken.
  have past : tokensFrom input (reached base hse) = [] :=
    tokens_end (by rw [reached, between.plain]; omega)
  rw [past, List.append_nil] at split
  simp only [owed, state, List.append_nil] at bits
  rw [← split] at bits
  have written := congrArg List.length bits
  rw [List.length_append, of_bytes_length] at written
  have closed := between.closed
  rw [← split, written] at closed
  by_cases aligned : hse.bitIndex = 0x80
  · have empty := (pending_start packed).mp aligned
    refine ⟨{ hse with state := .done }, oi, ?_, room, .finished rfl searched all ⟨?_, closed⟩⟩
    · simp only [pollStep, state, stFlushBitBuffer, aligned, checked_bind, ↓reduceIte]
    · exact ⟨0, by omega, by rw [← bits, empty]; simp⟩
  · by_cases free : canTakeByte oi = true
    · have open' := byte_free free
      have short := packed.short
      have positive : 0 < pending.length := by
        apply List.length_pos_iff.mpr
        exact fun empty => aligned ((pending_start packed).mpr empty)
      refine ⟨{ hse with state := .done }, { oi with buf := oi.buf ++ [hse.currentByte] }, ?_,
        ⟨room.total, by simpa [OutputInfo.outputSize] using Nat.succ_le_of_lt open'⟩,
        .finished rfl searched all ⟨⟨8 - pending.length, by omega, ?_⟩, closed⟩⟩
      · simp only [pollStep, state, stFlushBitBuffer, aligned, free, push_byte_room open',
          checked_bind, ↓reduceIte]
      · rw [← List.append_assoc, of_bytes_snoc, packed.byte,
          of_byte_pack_padded (Nat.le_of_lt short), ← List.append_assoc, bits]
    · have stuck : oi.outputSize = oi.bufSize := by
        have inside := room.inside
        simp only [canTakeByte, decide_eq_true_eq] at free
        omega
      refine ⟨hse, oi, ?_, room,
        .unflushed state ⟨base, spoken, pending, stands⟩ (room_full room stuck) aligned⟩
      simp only [pollStep, state, stFlushBitBuffer, aligned, free, ↓reduceIte]
      rw [← state]
      rfl

/-- Every round either returns with an outcome or advances. -/
theorem poll_step_exact (inv : Inv input sunk allowance (prior ++ oi.buf) hse)
    (room : Room allowance prior oi) :
    (∃ res hse' oi', pollStep hse oi = .ok (some res, hse', oi') ∧ Room allowance prior oi' ∧
      Outcome input sunk allowance (prior ++ oi'.buf) res hse') ∨
    ∃ hse' oi', pollStep hse oi = .ok (none, hse', oi') ∧
      Advance input sunk allowance prior hse hse' oi' := by
  obtain ⟨base, spoken, pending, stands⟩ := id inv
  cases state : hse.state with
  | notFull =>
      exact Or.inl ⟨.empty, hse, oi, by simp only [pollStep, state], room, .waiting state inv⟩
  | filled => exact Or.inr ((step_filled state stands room).imp fun hse' step => ⟨oi, step⟩)
  | search => exact Or.inr ((step_search state stands room).imp fun hse' step => ⟨oi, step⟩)
  | yieldTagBit => exact Or.inr (step_yield_tag_bit state stands room)
  | yieldLiteral => exact Or.inr (step_yield_literal state stands room)
  | yieldBrIndex => exact Or.inr (step_yield_br_index state stands room)
  | yieldBrLength => exact Or.inr (step_yield_br_length state stands room)
  | saveBacklog =>
      exact Or.inr ((step_save_backlog state stands room).imp fun hse' step => ⟨oi, step⟩)
  | flushBits => exact Or.inl ⟨.empty, step_flush_bits state inv room⟩
  | done =>
      have shape := stands.shape
      simp only [Shape, state] at shape

theorem poll_loop_exact (fuel : Nat) (enough : effort hse < fuel)
    (inv : Inv input sunk allowance (prior ++ oi.buf) hse) (room : Room allowance prior oi) :
    ∃ res hse' oi', pollLoop fuel hse oi = .ok (res, hse', oi') ∧ Room allowance prior oi' ∧
      Outcome input sunk allowance (prior ++ oi'.buf) res hse' := by
  induction fuel generalizing hse oi with
  | zero => exact absurd enough (Nat.not_lt_zero _)
  | succ fuel ih =>
      rcases poll_step_exact inv room with ⟨res, hse', oi', step, room', outcome⟩ |
        ⟨hse', oi', step, advance⟩
      · refine ⟨res, hse', oi', ?_, room', outcome⟩
        simp only [pollLoop, step, checked_bind]
      · by_cases stuck : hse'.state = hse.state ∧ oi'.outputSize = oi'.bufSize
        · refine ⟨.more, hse', oi', ?_, advance.room, ?_⟩
          · simp only [pollLoop, step, checked_bind]
            rw [if_pos stuck]
          · exact .full (by rw [stuck.1]; exact advance.same stuck.1) advance.inv
              (room_full advance.room stuck.2)
        -- A round that is not stuck has done some of the work.
        · have less : effort hse' < effort hse := advance.progress.resolve_right stuck
          obtain ⟨res, hse'', oi'', run, room'', outcome⟩ :=
            ih (by omega) advance.inv advance.room
          refine ⟨res, hse'', oi'', ?_, room'', outcome⟩
          simp only [pollLoop, step, checked_bind]
          rw [if_neg stuck]
          exact run

/-- A call with room for output ends, stays inside its buffers, and leaves the
encoder at a point of the parse. -/
theorem poll_exact {outBufSize : Nat} (inv : Inv input sunk allowance prior hse)
    (positive : outBufSize ≠ 0) (total : prior.length + outBufSize = allowance) :
    ∃ res hse' bytes, heatshrinkEncoderPoll hse outBufSize = .ok (res, hse', some bytes) ∧
      bytes.length ≤ outBufSize ∧ Outcome input sunk allowance (prior ++ bytes) res hse' := by
  have empty : Room allowance prior { buf := [], bufSize := outBufSize } := ⟨total, Nat.zero_le _⟩
  obtain ⟨res, hse', oi', run, room, outcome⟩ :=
    poll_loop_exact (pollFuel hse) (effort_bound hse) (by simpa using inv) empty
  refine ⟨res, hse', oi'.buf, ?_, ?_, outcome⟩
  · rw [heatshrinkEncoderPoll, if_neg positive, run, checked_bind]
  · have inside := room.inside
    have limit := room.total
    simp only [OutputInfo.outputSize] at inside
    omega

end Run

end ThingyAccel.HeatshrinkPoll
