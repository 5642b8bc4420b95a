import ThingyAccel.HeatshrinkRounds

/-!
Where the encoder stops for more input, and which token uses up the last allowed byte.
A poll that asks for more room is stuck inside a token or before one.
-/
namespace ThingyAccel.HeatshrinkPauses

open Memory Bits Lzss HeatshrinkEncoder HeatshrinkMatch HeatshrinkOutput HeatshrinkPoll
  HeatshrinkRounds

section Search

variable {input : List UInt8}

def stride (input : List UInt8) (position : Nat) : Nat :=
  max 1 (matchAt (history input) 512 8 (512 + position)).1

def searchTo (input : List UInt8) (stop position : Nat) : Nat :=
  if position < stop then searchTo input stop (position + stride input position) else position
termination_by stop - position
decreasing_by
  have some' : 1 ≤ stride input position := Nat.le_max_left _ _
  omega

/-- Where the search starts with a new window, which it leaves at 505 bytes or more
while input is to come. -/
def resumesAt (input : List UInt8) : Nat → Option Nat
  | 0 => some 0
  | count + 1 => (resumesAt input count).bind fun base =>
      if base + 512 < input.length then some (searchTo input (base + 505) base) else none

theorem tokens_stride {position : Nat} (inside : position < input.length) :
    ∃ token, tokensFrom input position =
      token :: tokensFrom input (position + stride input position) := by
  rcases best : matchAt (history input) 512 8 (512 + position) with ⟨length, distance⟩
  by_cases long : 1 < length
  · have width : stride input position = length := by
      rw [stride, best]
      exact Nat.max_eq_right (Nat.le_of_lt long)
    rw [width]
    exact ⟨_, tokens_backref inside best long⟩
  · have width : stride input position = 1 := by
      rw [stride, best]
      exact Nat.max_eq_left (Nat.le_of_not_lt long)
    have present := List.getElem?_eq_getElem
      (by rw [history_length]; omega : 512 + position < (history input).length)
    rw [width]
    exact ⟨_, tokens_literal present (by rw [best]; exact Nat.le_of_not_lt long)⟩

theorem search_to_step {stop position : Nat} (before : position < stop) :
    searchTo input stop (position + stride input position) = searchTo input stop position := by
  conv_rhs => rw [searchTo, if_pos before]

theorem search_to_stop {stop position : Nat} (behind : stop ≤ position) :
    searchTo input stop position = position := by
  rw [searchTo, if_neg (Nat.not_lt_of_le behind)]

theorem search_to_reaches (stop position : Nat) : stop ≤ searchTo input stop position := by
  induction position using searchTo.induct input stop with
  | case1 position before ih =>
      rw [searchTo, if_pos before]
      exact ih
  | case2 position behind =>
      rw [searchTo, if_neg behind]
      exact Nat.le_of_not_lt behind

theorem search_to_le (stop position : Nat) : position ≤ searchTo input stop position := by
  induction position using searchTo.induct input stop with
  | case1 position before ih =>
      rw [searchTo, if_pos before]
      exact Nat.le_trans (Nat.le_add_right _ _) ih
  | case2 position behind =>
      rw [searchTo, if_neg behind]

theorem resumes_behind {first second base later : Nat} (order : first < second)
    (here : resumesAt input first = some base) (there : resumesAt input second = some later) :
    base + 512 < input.length ∧ searchTo input (base + 505) base ≤ later := by
  induction second generalizing later with
  | zero => exact absurd order (Nat.not_lt_zero first)
  | succ second ih =>
      obtain ⟨before, found, next⟩ := Option.bind_eq_some_iff.mp there
      split at next
      · rename_i more
        cases next
        rcases Nat.lt_succ_iff_lt_or_eq.mp order with earlier | same
        · obtain ⟨room, behind⟩ := ih earlier found
          exact ⟨room, Nat.le_trans behind (search_to_le _ _)⟩
        · rw [same, found] at here
          cases here
          exact ⟨more, Nat.le_refl _⟩
      · cases next

theorem tokens_from_injective {position other : Nat} (inside : position ≤ input.length)
    (inside' : other ≤ input.length) (same : tokensFrom input position = tokensFrom input other) :
    position = other := by
  have parse := (@greedy_parses (history input) 512 8 1 9 3 (by decide) (by decide) (512 + position)
    (Nat.le_add_right _ _) (by rw [history_length]; omega)).1
  have parse' := (@greedy_parses (history input) 512 8 1 9 3 (by decide) (by decide) (512 + other)
    (Nat.le_add_right _ _) (by rw [history_length]; omega)).1
  rw [tokensFrom, tokensFrom] at same
  rw [same] at parse
  exact Nat.add_left_cancel (parses_start parse parse')

end Search

section Rounds

variable {input prior : List UInt8} {sunk allowance base : Nat} {hse next : Encoder}
  {oi after : OutputInfo} {spoken : List Token} {pending : List Bool}

theorem search_round (state : hse.state = .search)
    (stands : Represents input sunk allowance (prior ++ oi.buf) hse base spoken pending)
    (round : pollStep hse oi = .ok (none, next, after)) :
    next = { hse with state := if isFinishing hse then .flushBits else .saveBacklog } ∨
      next.state = .yieldTagBit ∧ next.inputSize = hse.inputSize ∧
        next.matchScanIndex + next.matchLength =
          hse.matchScanIndex + stride input (base + hse.matchScanIndex) ∧
        hse.matchScanIndex < hse.inputSize ∧
        (isFinishing hse = true ∨ hse.matchScanIndex ≤ 504) := by
  have geometry := stands.geometry
  have size := geometry.inside
  have shape := stands.shape
  simp only [Shape, state] at shape
  obtain ⟨between, searchable, within⟩ := shape
  have lookahead : getLookaheadSize hse = 8 := by
    simp [getLookaheadSize, geometry.lookaheadBits]
  simp only [pollStep, state] at round
  obtain ⟨searched, searches, same⟩ := bind_ok.mp round
  simp only [stStepSearch] at searches
  by_cases exhausted : (hse.inputSize : Int) -
      (if isFinishing hse then 1 else getLookaheadSize hse : Nat) < hse.matchScanIndex
  · rw [if_pos exhausted] at searches
    cases searches
    cases same
    exact Or.inl rfl
  · rw [if_neg exhausted] at searches
    rw [lookahead] at exhausted
    have more : hse.matchScanIndex < hse.inputSize := by
      split at exhausted <;> omega
    have deep : isFinishing hse = true ∨ hse.matchScanIndex ≤ 504 := by
      by_cases finishing : isFinishing hse = true
      · exact Or.inl finishing
      · rw [if_neg finishing] at exhausted
        exact Or.inr (by omega)
    obtain ⟨found, -, -, far, -⟩ := search_finds geometry searchable more deep
    rw [found, checked_bind] at searches
    by_cases worth : 1 < (matchAt (history input) 512 8 (512 + (base + hse.matchScanIndex))).1
    · have width : stride input (base + hse.matchScanIndex) =
          (matchAt (history input) 512 8 (512 + (base + hse.matchScanIndex))).1 :=
        Nat.max_eq_right (Nat.le_of_lt worth)
      have known : (matchAt (history input) 512 8 (512 + (base + hse.matchScanIndex))).2 ≠
          matchNotFound := by
        simp only [matchNotFound]
        omega
      simp only [if_pos worth, known, ↓reduceIte] at searches
      cases searches
      cases same
      rw [width]
      exact Or.inr ⟨rfl, rfl, rfl, more, deep⟩
    · have width : stride input (base + hse.matchScanIndex) = 1 :=
        Nat.max_eq_left (Nat.le_of_not_lt worth)
      simp only [if_neg worth, ↓reduceIte] at searches
      cases searches
      cases same
      rw [width]
      exact Or.inr ⟨rfl, rfl, rfl, more, deep⟩

/-- The bits of the tokens leave a bit of the allowance free. -/
def Below (allowance : Nat) (tokens : List Token) : Prop :=
  (stream 9 3 tokens).length < 8 * allowance

/-- Between tokens: only a literal reaches the end of the allowance, and with its byte. -/
def Crossed (allowance : Nat) (spoken : List Token) : Prop :=
  Below allowance spoken ∨ ∃ front byte, spoken = front ++ [.literal byte] ∧
    (stream 9 3 front).length + 1 < 8 * allowance

def Trails (input : List UInt8) (base position : Nat) : Prop :=
  base ≤ position ∧ (base + 512 < input.length →
    searchTo input (base + 505) position = searchTo input (base + 505) base)

structure Current (input : List UInt8) (base : Nat) (hse : Encoder) (spoken front : List Token)
    (start : Nat) : Prop where
  trail : Trails input base start
  within : base + 512 < input.length → start < base + 505
  inside : start < input.length
  ends : reached base hse = start + stride input start
  split : tokensFrom input 0 = front ++ tokensFrom input start
  token : ∃ token, spoken = front ++ [token]

def Place (input : List UInt8) (allowance base : Nat) (hse : Encoder) (spoken : List Token) : Prop :=
  match hse.state with
  | .yieldTagBit => ∃ front start, Current input base hse spoken front start
  | .yieldLiteral | .yieldBrIndex | .yieldBrLength =>
      ∃ front start, Current input base hse spoken front start ∧ Below allowance front
  | .notFull | .filled | .search | .saveBacklog | .flushBits | .done =>
      Trails input base (reached base hse) ∧ Crossed allowance spoken

/-- How the encoder came to a point of the parse: its window started where an earlier
search stopped, with a bit of the allowance left. -/
structure Paced (input : List UInt8) (allowance base : Nat) (hse : Encoder) (spoken : List Token) :
    Prop where
  resumed : ∃ count, resumesAt input count = some base
  opened : hse.state ≠ .notFull →
    ∀ front, tokensFrom input 0 = front ++ tokensFrom input base → Below allowance front
  place : Place input allowance base hse spoken

theorem spoken_length {out : List UInt8}
    (stands : Represents input sunk allowance out hse base spoken pending) :
    (stream 9 3 spoken).length = 8 * out.length + pending.length + (owed hse).length := by
  rw [← stands.bits]
  simp only [List.length_append, of_bytes_length]

theorem literal_bits (byte : UInt8) : ((Token.literal byte).bits 9 3).length = 9 := by
  simp [Token.bits]

theorem backref_bits (distance length : Nat) :
    ((Token.backref distance length).bits 9 3).length = 13 := by
  simp [Token.bits]

theorem stream_snoc_length (front : List Token) (token : Token) :
    (stream 9 3 (front ++ [token])).length =
      (stream 9 3 front).length + (token.bits 9 3).length := by
  rw [stream_append, List.length_append, stream_cons, List.length_append]
  rfl

variable {base' : Nat} {spoken' : List Token} {pending' : List Bool}

theorem represents_same {out out' : List UInt8}
    (stands : Represents input sunk allowance out hse base spoken pending)
    (stands' : Represents input sunk allowance out' next base' spoken' pending')
    (size : next.inputSize = hse.inputSize)
    (place : next.matchScanIndex + next.matchLength = hse.matchScanIndex + hse.matchLength) :
    base' = base ∧ reached base next = reached base hse ∧ spoken' = spoken := by
  have total := stands.geometry.total
  have total' := stands'.geometry.total
  have window : base' = base := by omega
  subst window
  have position : reached base' next = reached base' hse := by
    simp only [reached]
    omega
  have split := stands'.split
  rw [position, stands.split] at split
  exact ⟨rfl, position, (List.append_cancel_right split).symm⟩

theorem finishing_last {out : List UInt8}
    (stands : Represents input sunk allowance out hse base spoken pending)
    (more : base + 512 < input.length) : isFinishing hse = false := by
  cases finishing : isFinishing hse with
  | false => rfl
  | true =>
      have total := geometry_finished stands.geometry finishing
      have size := stands.geometry.inside
      omega

theorem tag_written {out : List UInt8} (state : hse.state = .yieldTagBit)
    (stands : Represents input sunk allowance out hse base spoken pending) {front : List Token}
    {token : Token} (current : spoken = front ++ [token]) :
    (stream 9 3 front).length = 8 * out.length + pending.length := by
  have total := spoken_length stands
  have shape := stands.shape
  rw [current, stream_snoc_length] at total
  simp only [Shape, state] at shape
  obtain ⟨-, ⟨literal, earlier, byte, ends⟩ | ⟨backref, earlier, distance, length, ends⟩⟩ := shape
  · rw [current] at ends
    have last := (List.cons.inj (List.append_inj' ends rfl).2).1
    rw [last, literal_bits] at total
    simp only [owed, state, literal.plain, ↓reduceIte, literal_bits] at total
    omega
  · rw [current] at ends
    have last := (List.cons.inj (List.append_inj' ends rfl).2).1
    have some' : hse.matchLength ≠ 0 := by
      have short := backref.short
      omega
    rw [last, backref_bits] at total
    simp only [owed, state, some', ↓reduceIte, backref_bits] at total
    omega

/-- A free byte is at least a bit of the allowance for the tokens before the current one. -/
theorem tag_below (state : hse.state = .yieldTagBit)
    (stands : Represents input sunk allowance (prior ++ oi.buf) hse base spoken pending)
    (room : Room allowance prior oi) (free : canTakeByte oi = true) {front : List Token}
    {token : Token} (current : spoken = front ++ [token]) : Below allowance front := by
  have left := room_left room (byte_free free) stands.packed.short
  rw [Below, tag_written state stands current]
  exact left

theorem current_trails {front : List Token} {start : Nat}
    (current : Current input base hse spoken front start) :
    Trails input base (reached base hse) := by
  obtain ⟨behind, trail⟩ := current.trail
  rw [current.ends]
  refine ⟨Nat.le_trans behind (Nat.le_add_right _ _), fun more => ?_⟩
  rw [search_to_step (current.within more)]
  exact trail more

/-- The end of a token: a back reference leaves a bit free, a literal had its tag inside. -/
theorem ended_crossed (yields : Yields hse.state) (search : next.state = .search)
    (stands : Represents input sunk allowance (prior ++ oi.buf) hse base spoken pending)
    (room : Room allowance prior oi) (free : canTakeByte oi = true)
    (tagged : hse.state ≠ .yieldTagBit)
    (stands' : Represents input sunk allowance (prior ++ after.buf) next base' spoken pending') :
    Crossed allowance spoken := by
  have shape := stands.shape
  have shape' := stands'.shape
  have total := spoken_length stands
  have total' := spoken_length stands'
  simp only [Shape, search] at shape'
  simp only [owed, search, List.length_nil, Nat.add_zero] at total'
  -- A back reference closes only with a bit left, since its last round asks for a byte.
  have backref (ends : EndsBackref spoken) : Crossed allowance spoken := by
    refine Or.inl ?_
    rw [Below, total']
    exact shape'.1.closed.resolve_right (ends_exclusive ends)
  cases state : hse.state with
  | yieldTagBit => exact absurd state tagged
  | yieldLiteral =>
      have left := room_left room (byte_free free) stands.packed.short
      simp only [Shape, state] at shape
      obtain ⟨-, -, front, byte, ends⟩ := shape
      refine Or.inr ⟨front, byte, ends, ?_⟩
      rw [ends, stream_snoc_length, literal_bits] at total
      simp only [owed, state, of_byte_length] at total
      omega
  | yieldBrIndex =>
      simp only [Shape, state] at shape
      exact backref shape.2.2.1
  | yieldBrLength =>
      simp only [Shape, state] at shape
      exact backref shape.2.2.1
  | notFull | filled | search | saveBacklog | flushBits | done =>
      rw [state] at yields
      exact yields.elim

theorem current_frame {front : List Token} {start : Nat}
    (current : Current input base hse spoken front start)
    (same : reached base next = reached base hse) : Current input base next spoken front start :=
  ⟨current.trail, current.within, current.inside, same.trans current.ends, current.split,
    current.token⟩

theorem paced_yield (yields : Yields hse.state)
    (stands : Represents input sunk allowance (prior ++ oi.buf) hse base spoken pending)
    (room : Room allowance prior oi) (paced : Paced input allowance base hse spoken)
    (round : pollStep hse oi = .ok (none, next, after))
    (stands' : Represents input sunk allowance (prior ++ after.buf) next base' spoken' pending') :
    Paced input allowance base' next spoken' := by
  rcases yield_round yields round with same | wrote
  · subst same
    obtain ⟨rfl, -, rfl⟩ := represents_same stands stands' rfl rfl
    exact paced
  · have size : next.inputSize = hse.inputSize := by
      have same := wrote.frame
      simp only [HeatshrinkPoll.frame, Prod.mk.injEq] at same
      exact same.2.2.2.1
    obtain ⟨rfl, position, rfl⟩ := represents_same stands stands' size wrote.place
    have opened := paced.opened (fun waiting => by simp [waiting, Yields] at yields)
    -- The token goes on, with its tag out, or it has ended.
    have current : ∃ front start, Current input base' hse spoken' front start ∧
        Below allowance front := by
      have place := paced.place
      cases state : hse.state with
      | yieldTagBit =>
          simp only [Place, state] at place
          obtain ⟨front, start, current⟩ := place
          obtain ⟨token, ends⟩ := current.token
          exact ⟨front, start, current, tag_below state stands room wrote.free ends⟩
      | yieldLiteral | yieldBrIndex | yieldBrLength => simpa only [Place, state] using place
      | notFull | filled | search | saveBacklog | flushBits | done =>
          rw [state] at yields
          exact yields.elim
    obtain ⟨front, start, current, below⟩ := current
    refine ⟨paced.resumed, fun _ => opened, ?_⟩
    by_cases goes : Yields next.state
    · have place : ∃ front start, Current input base' next spoken' front start ∧
          Below allowance front := ⟨front, start, current_frame current position, below⟩
      cases state : next.state with
      | yieldTagBit => exact absurd state wrote.tagged
      | yieldLiteral | yieldBrIndex | yieldBrLength => simpa only [Place, state] using place
      | notFull | filled | search | saveBacklog | flushBits | done =>
          rw [state] at goes
          exact goes.elim
    · have search := wrote.ends goes
      have tagged : hse.state ≠ .yieldTagBit := fun tag => goes (wrote.starts tag)
      simp only [Place, search]
      exact ⟨position ▸ current_trails current,
        ended_crossed yields search stands room wrote.free tagged stands'⟩

theorem paced_search (state : hse.state = .search)
    (stands : Represents input sunk allowance (prior ++ oi.buf) hse base spoken pending)
    (paced : Paced input allowance base hse spoken)
    (round : pollStep hse oi = .ok (none, next, after))
    (stands' : Represents input sunk allowance (prior ++ after.buf) next base' spoken' pending') :
    Paced input allowance base' next spoken' := by
  have opened := paced.opened (by simp [state])
  have place := paced.place
  simp only [Place, state] at place
  rcases search_round state stands round with same | ⟨tag, size, moved, more, deep⟩
  · subst same
    obtain ⟨rfl, -, rfl⟩ := represents_same stands stands' rfl rfl
    refine ⟨paced.resumed, fun _ => opened, ?_⟩
    by_cases finishing : isFinishing hse = true
    · rw [if_pos finishing]
      exact place
    · rw [if_neg finishing]
      exact place
  · have shape := stands.shape
    simp only [Shape, state] at shape
    have plain := shape.1.plain
    have total := stands.geometry.total
    have total' := stands'.geometry.total
    have window : base' = base := by omega
    subst window
    have here : reached base' hse = base' + hse.matchScanIndex := by
      rw [reached, plain, Nat.add_zero]
    have ends : reached base' next = reached base' hse + stride input (reached base' hse) := by
      rw [here]
      simp only [reached]
      omega
    have inside : reached base' hse < input.length := by
      have bound := geometry_inside stands.geometry
      omega
    obtain ⟨token, parsed⟩ := tokens_stride inside
    have grown : spoken' = spoken ++ [token] := by
      have split := stands'.split
      rw [ends, stands.split, parsed, List.append_cons] at split
      exact (List.append_cancel_right split).symm
    refine ⟨paced.resumed, fun _ => opened, ?_⟩
    simp only [Place, tag]
    refine ⟨spoken, reached base' hse, place.1, fun room => ?_, inside, ends, stands.split, token,
      grown⟩
    rcases deep with finishing | early
    · rw [finishing_last stands room] at finishing
      cases finishing
    · omega

theorem paced_filled (state : hse.state = .filled)
    (stands : Represents input sunk allowance (prior ++ oi.buf) hse base spoken pending)
    (paced : Paced input allowance base hse spoken)
    (round : pollStep hse oi = .ok (none, next, after))
    (stands' : Represents input sunk allowance (prior ++ after.buf) next base' spoken' pending') :
    Paced input allowance base' next spoken' := by
  have opened := paced.opened (by simp [state])
  have place := paced.place
  simp only [Place, state] at place
  simp only [pollStep, state] at round
  obtain ⟨indexed, indexes, same⟩ := bind_ok.mp round
  rw [doIndexing] at indexes
  obtain ⟨entries, -, written⟩ := bind_ok.mp indexes
  cases written
  cases same
  obtain ⟨rfl, -, rfl⟩ := represents_same stands stands' rfl rfl
  exact ⟨paced.resumed, fun _ => opened, place⟩

theorem paced_backlog (state : hse.state = .saveBacklog)
    (stands : Represents input sunk allowance (prior ++ oi.buf) hse base spoken pending)
    (paced : Paced input allowance base hse spoken)
    (round : pollStep hse oi = .ok (none, next, after))
    (stands' : Represents input sunk allowance (prior ++ after.buf) next base' spoken' pending') :
    Paced input allowance base' next spoken' := by
  have geometry := stands.geometry
  have shape := stands.shape
  have place := paced.place
  simp only [Shape, state] at shape
  simp only [Place, state] at place
  obtain ⟨between, running, full, deep, within⟩ := shape
  obtain ⟨⟨behind, trail⟩, crossed⟩ := place
  obtain ⟨count, resumed⟩ := paced.resumed
  have window : getInputBufferSize hse = 512 := by
    simp [getInputBufferSize, geometry.windowBits]
  have here : reached base hse = base + hse.matchScanIndex := by
    rw [reached, between.plain, Nat.add_zero]
  simp only [pollStep, state, stSaveBacklog, saveBacklog, window] at round
  obtain ⟨_, saves, same⟩ := bind_ok.mp round
  obtain ⟨saved, shifts, moved⟩ := bind_ok.mp saves
  cases moved
  cases same
  split at shifts
  · cases shifts
  · obtain ⟨buffer, -, written⟩ := bind_ok.mp shifts
    cases written
    have total := geometry.total
    have total' := stands'.geometry.total
    simp only at total'
    have start : base' = reached base hse := by omega
    have position : reached base' { hse with
        buffer := buffer, matchScanIndex := 0,
        inputSize := hse.inputSize - (512 - (512 - hse.matchScanIndex)), state := .notFull } =
        reached base hse := by
      simp only [reached, between.plain] at start ⊢
      omega
    have grown : spoken' = spoken := by
      have split := stands'.split
      rw [position, stands.split] at split
      exact (List.append_cancel_right split).symm
    have more : base + 512 < input.length := by
      have available := geometry.available
      have unfinished : sunk ≠ input.length := fun finished => by
        rw [geometry.finishing.mpr finished] at running
        cases running
      omega
    refine ⟨⟨count + 1, ?_⟩, fun waiting => absurd rfl waiting, ?_⟩
    · rw [resumesAt, resumed, Option.bind_some, if_pos more, ← trail more,
        search_to_stop (by rw [here]; omega), start]
    · simp only [Place]
      rw [position, ← start, grown]
      exact ⟨⟨Nat.le_refl _, fun _ => rfl⟩, crossed⟩

theorem paced_round
    (stands : Represents input sunk allowance (prior ++ oi.buf) hse base spoken pending)
    (room : Room allowance prior oi) (paced : Paced input allowance base hse spoken)
    (round : pollStep hse oi = .ok (none, next, after))
    (stands' : Represents input sunk allowance (prior ++ after.buf) next base' spoken' pending') :
    Paced input allowance base' next spoken' := by
  cases state : hse.state with
  | filled => exact paced_filled state stands paced round stands'
  | search => exact paced_search state stands paced round stands'
  | saveBacklog => exact paced_backlog state stands paced round stands'
  | yieldTagBit | yieldLiteral | yieldBrIndex | yieldBrLength =>
      exact paced_yield (by rw [state]; trivial) stands room paced round stands'
  | notFull | done =>
      simp only [pollStep, state] at round
      cases round
  | flushBits =>
      simp only [pollStep, state] at round
      obtain ⟨flushed, -, same⟩ := bind_ok.mp round
      cases same

theorem returned_round {res : PollRes} (round : pollStep hse oi = .ok (some res, next, after)) :
    next.state = .done ∨ next = hse ∧ after = oi := by
  cases state : hse.state with
  | notFull | done =>
      simp only [pollStep, state] at round
      cases round
      exact Or.inr ⟨rfl, rfl⟩
  | flushBits =>
      simp only [pollStep, state] at round
      obtain ⟨flushed, flushes, same⟩ := bind_ok.mp round
      rw [stFlushBitBuffer] at flushes
      cases same
      split at flushes
      · cases flushes
        exact Or.inl rfl
      · split at flushes
        · obtain ⟨pushed, -, written⟩ := bind_ok.mp flushes
          cases written
          exact Or.inl rfl
        · cases flushes
          rw [← state]
          exact Or.inr ⟨rfl, rfl⟩
  | filled | search | saveBacklog | yieldTagBit | yieldLiteral | yieldBrIndex | yieldBrLength =>
      simp only [pollStep, state] at round
      obtain ⟨stepped, -, same⟩ := bind_ok.mp round
      cases same

/-- The encoder stands for a point of the parse that it came to at its pace. -/
def PacedInv (input : List UInt8) (sunk allowance : Nat) (out : List UInt8) (hse : Encoder) : Prop :=
  ∃ base spoken pending, Represents input sunk allowance out hse base spoken pending ∧
    Paced input allowance base hse spoken

theorem paced_inv_loop (fuel : Nat) (inv : PacedInv input sunk allowance (prior ++ oi.buf) hse)
    (room : Room allowance prior oi) {res : PollRes}
    (run : pollLoop fuel hse oi = .ok (res, next, after)) :
    next.state = .done ∨ PacedInv input sunk allowance (prior ++ after.buf) next := by
  induction fuel generalizing hse oi with
  | zero => cases run
  | succ fuel ih =>
      obtain ⟨base, spoken, pending, stands, paced⟩ := id inv
      have known : Inv input sunk allowance (prior ++ oi.buf) hse := ⟨base, spoken, pending, stands⟩
      rcases poll_step_exact known room with ⟨last, hse', oi', round, -, outcome⟩ |
        ⟨hse', oi', round, advance⟩
      · simp only [pollLoop, round, checked_bind] at run
        cases run
        rcases returned_round round with done | ⟨rfl, rfl⟩
        · exact Or.inl done
        · exact Or.inr inv
      · obtain ⟨base', spoken', pending', stands'⟩ := advance.inv
        have paced' := paced_round stands room paced round stands'
        simp only [pollLoop, round, checked_bind] at run
        split at run
        · cases run
          exact Or.inr ⟨base', spoken', pending', stands', paced'⟩
        · exact ih ⟨base', spoken', pending', stands', paced'⟩ advance.room run

theorem paced_inv_poll {outBufSize : Nat} {res : PollRes} {bytes : List UInt8}
    (inv : PacedInv input sunk allowance prior hse) (positive : outBufSize ≠ 0)
    (total : prior.length + outBufSize = allowance)
    (run : heatshrinkEncoderPoll hse outBufSize = .ok (res, next, some bytes)) :
    next.state = .done ∨ PacedInv input sunk allowance (prior ++ bytes) next := by
  rw [heatshrinkEncoderPoll, if_neg positive] at run
  obtain ⟨⟨last, hse', oi'⟩, loops, same⟩ := bind_ok.mp run
  cases same
  exact paced_inv_loop (pollFuel hse) (by simpa using inv) ⟨total, Nat.zero_le _⟩ loops

theorem paced_sink {out : List UInt8} {taken : Nat} (state : hse.state = .notFull)
    (inv : PacedInv input sunk allowance out hse) (room : out.length < allowance)
    (filled : next.state = .filled) (size : next.inputSize = hse.inputSize + taken)
    (place : next.matchScanIndex + next.matchLength = hse.matchScanIndex + hse.matchLength)
    (inv' : Inv input (sunk + taken) allowance out next) :
    PacedInv input (sunk + taken) allowance out next := by
  obtain ⟨base, spoken, pending, stands, paced⟩ := inv
  obtain ⟨base', spoken', pending', stands'⟩ := inv'
  have total := stands.geometry.total
  have total' := stands'.geometry.total
  have written := spoken_length stands
  have short := stands.packed.short
  have shape := stands.shape
  have here := paced.place
  simp only [Shape, state] at shape
  simp only [Place, state] at here
  simp only [owed, state, List.length_nil, Nat.add_zero] at written
  have window : base' = base := by omega
  subst window
  have position : reached base' next = reached base' hse := by
    simp only [reached]
    omega
  have start : reached base' hse = base' := by
    rw [reached, shape.2.2.2, shape.1.plain]
    rfl
  have grown : spoken' = spoken := by
    have split := stands'.split
    rw [position, stands.split] at split
    exact (List.append_cancel_right split).symm
  subst grown
  refine ⟨base', spoken', pending', stands', paced.resumed, fun _ front split => ?_, ?_⟩
  · have same := stands.split
    rw [start, split] at same
    rw [List.append_cancel_right same, Below]
    omega
  · simp only [Place, filled]
    rw [position]
    exact here

end Rounds

section Settled

variable {input out : List UInt8} {sunk : Nat} {hse : Encoder}

/-- The byte of a literal uses up the allowance, and the encoder has nothing left to
search behind it: the input ends, or the search of a window stops there. -/
def FillsAtPause (input : List UInt8) : Prop :=
  ∃ position front byte,
    (position = input.length ∨ ∃ count, resumesAt input count = some position) ∧
      tokensFrom input 0 = front ++ .literal byte :: tokensFrom input position ∧
      (stream 9 3 front).length + 1 < 8 * input.length ∧
      8 * input.length ≤ (stream 9 3 front).length + 9

/-- The parse leaves a bit of the allowance free, or a literal uses it up at a pause. -/
def Settles (input : List UInt8) : Prop :=
  Below input.length (tokensFrom input 0) ∨ FillsAtPause input

theorem split_cases {α : Type} {front front' rest rest' : List α} {token token' : α}
    (same : front ++ token :: rest = front' ++ token' :: rest') :
    (∃ middle, front = front' ++ token' :: middle) ∨
      (front = front' ∧ token = token' ∧ rest = rest') ∨ ∃ middle, front' = front ++ token :: middle := by
  rcases List.append_eq_append_iff.mp same with ⟨more, longer, tail⟩ | ⟨more, longer, tail⟩
  · cases more with
    | nil =>
        obtain ⟨rfl, rfl⟩ := List.cons.inj tail
        exact Or.inr (Or.inl ⟨by rw [longer, List.append_nil], rfl, rfl⟩)
    | cons head middle =>
        obtain ⟨rfl, -⟩ := List.cons.inj tail
        exact Or.inr (Or.inr ⟨middle, longer⟩)
  · cases more with
    | nil =>
        obtain ⟨rfl, rfl⟩ := List.cons.inj tail
        exact Or.inr (Or.inl ⟨by rw [longer, List.append_nil], rfl, rfl⟩)
    | cons head middle =>
        obtain ⟨rfl, -⟩ := List.cons.inj tail
        exact Or.inl ⟨middle, longer⟩

theorem stream_front_length (front middle : List Token) (token : Token) :
    (stream 9 3 (front ++ token :: middle)).length =
      (stream 9 3 (front ++ [token])).length + (stream 9 3 middle).length := by
  rw [List.append_cons, stream_append, List.length_append]

theorem stream_nil_of_short {tokens : List Token} (short : (stream 9 3 tokens).length < 8) :
    tokens = [] := by
  cases tokens with
  | nil => rfl
  | cons token rest =>
      rw [stream_cons, List.length_append] at short
      cases token with
      | literal byte =>
          rw [literal_bits] at short
          omega
      | backref distance length =>
          rw [backref_bits] at short
          omega

theorem full_spoken {base : Nat} {spoken : List Token} {pending : List Bool}
    (stands : Represents input sunk input.length out hse base spoken pending)
    (full : out.length = input.length) :
    8 * input.length ≤ (stream 9 3 spoken).length ∧ ¬ Below input.length (tokensFrom input 0) := by
  have total := spoken_length stands
  rw [Below, stands.split, stream_append, List.length_append]
  omega

theorem current_unpaused {base start : Nat} {spoken front : List Token}
    (paced : Paced input input.length base hse spoken) (state : hse.state ≠ .notFull)
    (current : Current input base hse spoken front start)
    (pause : ∃ count, resumesAt input count = some start) : Below input.length front := by
  obtain ⟨count, here⟩ := pause
  obtain ⟨index, resumed⟩ := paced.resumed
  have behind := current.trail.1
  rcases Nat.lt_trichotomy count index with earlier | same | later
  · have order := (resumes_behind earlier here resumed).2
    have reaches := @search_to_reaches input (start + 505) start
    omega
  · rw [same, resumed] at here
    cases here
    exact paced.opened state front current.split
  · obtain ⟨more, order⟩ := resumes_behind later resumed here
    have reaches := @search_to_reaches input (base + 505) base
    have within := current.within more
    omega

/-- An encoder that is stuck on a full output is not at a pause. -/
theorem stuck_unsettled (yields : Yields hse.state) (inv : PacedInv input sunk input.length out hse)
    (full : out.length = input.length) : ¬ Settles input := by
  obtain ⟨base, spoken, pending, stands, paced⟩ := inv
  obtain ⟨enough, unfit⟩ := full_spoken stands full
  have total := spoken_length stands
  have place := paced.place
  have shape := stands.shape
  have notWaiting : hse.state ≠ .notFull := fun waiting => by simp [waiting, Yields] at yields
  rintro (below | ⟨position, front', byte, pause, split, tagged, filled⟩)
  · exact unfit below
  obtain ⟨front, start, current, kind⟩ : ∃ front start, Current input base hse spoken front start ∧
      (hse.state = .yieldTagBit ∨ Below input.length front) := by
    cases state : hse.state with
    | yieldTagBit =>
        simp only [Place, state] at place
        obtain ⟨front, start, current⟩ := place
        exact ⟨front, start, current, Or.inl rfl⟩
    | yieldLiteral | yieldBrIndex | yieldBrLength =>
        simp only [Place, state] at place
        obtain ⟨front, start, current, below⟩ := place
        exact ⟨front, start, current, Or.inr below⟩
    | notFull | filled | search | saveBacklog | flushBits | done =>
        rw [state] at yields
        exact yields.elim
  obtain ⟨token, ends⟩ := current.token
  have parsed : front ++ token :: tokensFrom input (reached base hse) =
      front' ++ .literal byte :: tokensFrom input position := by
    rw [← split, stands.split, ends, List.append_assoc]
    rfl
  rcases split_cases parsed with ⟨middle, longer⟩ | ⟨rfl, rfl, -⟩ | ⟨middle, longer⟩
  · -- The literal comes before the current token, and so right before it.
    have more := stream_front_length front' middle (.literal byte)
    rw [← longer, stream_snoc_length, literal_bits] at more
    rcases kind with state | below
    · have written := tag_written state stands ends
      have short := stands.packed.short
      have none := stream_nil_of_short (by omega : (stream 9 3 middle).length < 8)
      rw [none] at longer
      have same : tokensFrom input position = tokensFrom input start := by
        have cut := current.split
        rw [split, List.append_cons, ← longer] at cut
        exact List.append_cancel_left cut
      have inside : position < input.length := by
        by_contra past
        rw [tokens_end (Nat.le_of_not_lt past)] at same
        exact tokens_ne_nil current.inside same.symm
      have here := tokens_from_injective (Nat.le_of_lt inside) (Nat.le_of_lt current.inside) same
      subst here
      have below := current_unpaused paced notWaiting current
        (pause.resolve_left (Nat.ne_of_lt inside))
      rw [Below] at below
      omega
    · rw [Below] at below
      omega
  · -- The literal is the current token, and its tag has used up the allowance.
    rw [ends, stream_snoc_length, literal_bits] at total
    cases state : hse.state with
    | yieldTagBit =>
        have written := tag_written state stands ends
        omega
    | yieldLiteral =>
        simp only [owed, state, of_byte_length] at total
        omega
    | yieldBrIndex =>
        simp only [Shape, state] at shape
        exact ends_exclusive shape.2.2.1 ⟨front, byte, ends⟩
    | yieldBrLength =>
        simp only [Shape, state] at shape
        exact ends_exclusive shape.2.2.1 ⟨front, byte, ends⟩
    | notFull | filled | search | saveBacklog | flushBits | done =>
        rw [state] at yields
        exact yields.elim
  · -- The literal comes behind the current token, where the allowance is used up.
    have more := stream_front_length front middle token
    rw [← longer, ← ends] at more
    omega

theorem rested_settles (inv : PacedInv input sunk input.length out hse)
    (full : out.length = input.length)
    (rests : hse.state = .notFull ∨ hse.state = .flushBits) : Settles input := by
  obtain ⟨base, spoken, pending, stands, paced⟩ := inv
  obtain ⟨enough, unfit⟩ := full_spoken stands full
  have total := spoken_length stands
  have short := stands.packed.short
  have shape := stands.shape
  have place := paced.place
  have geometry := stands.geometry
  obtain ⟨crossed, nothing, pause⟩ : Crossed input.length spoken ∧ owed hse = [] ∧
      (reached base hse = input.length ∨
        ∃ count, resumesAt input count = some (reached base hse)) := by
    rcases rests with state | state
    · simp only [Shape, state] at shape
      simp only [Place, state] at place
      obtain ⟨between, -, -, first⟩ := shape
      have here : reached base hse = base := by
        rw [reached, first, between.plain]
        rfl
      rw [here]
      exact ⟨place.2, by simp [owed, state], Or.inr paced.resumed⟩
    · simp only [Shape, state] at shape
      simp only [Place, state] at place
      obtain ⟨between, finishing, searched⟩ := shape
      have whole := geometry_finished geometry finishing
      refine ⟨place.2, by simp [owed, state], Or.inl ?_⟩
      rw [reached, searched, between.plain]
      exact whole
  rw [nothing, List.length_nil] at total
  rcases crossed with below | ⟨front, byte, ends, tagged⟩
  · rw [Below] at below
    omega
  · refine Or.inr ⟨reached base hse, front, byte, pause, ?_, tagged, ?_⟩
    · rw [stands.split, ends, List.append_assoc]
      rfl
    · rw [ends, stream_snoc_length, literal_bits] at enough
      exact enough

end Settled

end ThingyAccel.HeatshrinkPauses
