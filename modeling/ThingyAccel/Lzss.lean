import Mathlib.Data.List.Basic
import ThingyAccel.Bits

/-! The LZSS bit format with a window of `2 ^ windowBits` bytes and matches of at
most `2 ^ lengthBits` bytes: tokens, their bits, the reference decoder, and the
greedy parse that prefers the longest and then the nearest match. -/
namespace ThingyAccel.Lzss

open Bits

inductive Token where
  | literal (byte : UInt8)
  | backref (distance length : Nat)
  deriving DecidableEq, Repr

def copyBack (distance : Nat) : Nat → List UInt8 → List UInt8
  | 0, history => history
  | count + 1, history =>
      copyBack distance count (history ++ [history.getD (history.length - distance) 0])

def Token.replay : Token → List UInt8 → List UInt8
  | .literal byte, history => history ++ [byte]
  | .backref distance length, history => copyBack distance length history

def replay (tokens : List Token) (history : List UInt8) : List UInt8 :=
  tokens.foldl (fun decoded token => token.replay decoded) history

theorem copy_back_take (data : List UInt8) (distance : Nat) (backward : 1 ≤ distance) :
    ∀ count position, distance ≤ position → position + count ≤ data.length →
      (∀ offset < count, data[position - distance + offset]? = data[position + offset]?) →
      copyBack distance count (data.take position) = data.take (position + count) := by
  intro count
  induction count with
  | zero => intro position _ _ _; rfl
  | succ count ih =>
      intro position reach inside agrees
      have frontLength : (data.take position).length = position := by
        rw [List.length_take]; omega
      -- The byte that is copied is the next byte of the data.
      have source : (data.take position).getD (position - distance) 0 = data[position] := by
        have first := agrees 0 (Nat.succ_pos count)
        rw [Nat.add_zero, Nat.add_zero, List.getElem?_eq_getElem (by omega : position < data.length)]
          at first
        rw [List.getD_eq_getElem?_getD, List.getElem?_take_of_lt (by omega), first]
        rfl
      rw [copyBack, frontLength, source, List.take_append_getElem (by omega : position < data.length),
        ih (position + 1) (by omega) (by omega)]
      · congr 1; omega
      · intro offset bound
        have later := agrees (offset + 1) (by omega)
        rw [show position + 1 - distance + offset = position - distance + (offset + 1) by omega,
          later]
        congr 1; omega

section Format

variable (windowBits lengthBits : Nat)

def Token.bits : Token → List Bool
  | .literal byte => true :: ofByte byte
  | .backref distance length =>
      false :: (ofNat windowBits (distance - 1) ++ ofNat lengthBits (length - 1))

def stream (tokens : List Token) : List Bool :=
  tokens.flatMap (Token.bits windowBits lengthBits)

theorem stream_cons (token : Token) (rest : List Token) :
    stream windowBits lengthBits (token :: rest) =
      token.bits windowBits lengthBits ++ stream windowBits lengthBits rest := rfl

theorem stream_append (left right : List Token) :
    stream windowBits lengthBits (left ++ right) =
      stream windowBits lengthBits left ++ stream windowBits lengthBits right :=
  List.flatMap_append

theorem token_bits_pos (token : Token) : 0 < (token.bits windowBits lengthBits).length := by
  cases token <;> simp [Token.bits]

theorem stream_pos {tokens : List Token} (present : tokens ≠ []) :
    0 < (stream windowBits lengthBits tokens).length := by
  cases tokens with
  | nil => exact absurd rfl present
  | cons token rest =>
      have head := token_bits_pos windowBits lengthBits token
      rw [stream_cons, List.length_append]
      omega

/-- The decoder stops at the first token whose bits are not all there. -/
def decode (bits : List Bool) (history : List UInt8) : List UInt8 :=
  match bits with
  | [] => history
  | true :: rest =>
      if 8 ≤ rest.length then
        decode (rest.drop 8) (history ++ [UInt8.ofNat (toNat (rest.take 8))])
      else history
  | false :: rest =>
      if windowBits + lengthBits ≤ rest.length then
        decode (rest.drop (windowBits + lengthBits))
          (copyBack (toNat (rest.take windowBits) + 1)
            (toNat ((rest.drop windowBits).take lengthBits) + 1) history)
      else history
termination_by bits.length
decreasing_by all_goals simp only [List.length_drop, List.length_cons]; omega

def Token.Fits : Token → Prop
  | .literal _ => True
  | .backref distance length =>
      1 ≤ distance ∧ distance ≤ 2 ^ windowBits ∧ 1 ≤ length ∧ length ≤ 2 ^ lengthBits

theorem decode_token (token : Token) (fits : token.Fits windowBits lengthBits)
    (tail : List Bool) (history : List UInt8) :
    decode windowBits lengthBits (token.bits windowBits lengthBits ++ tail) history =
      decode windowBits lengthBits tail (token.replay history) := by
  cases token with
  | literal byte =>
      rw [Token.bits, List.cons_append, decode, if_pos (by simp), List.drop_left' (by simp),
        List.take_left' (by simp), to_nat_of_byte]
      rfl
  | backref distance length =>
      obtain ⟨near, far, short, long⟩ := fits
      have distanceBack : toNat (ofNat windowBits (distance - 1)) + 1 = distance := by
        rw [to_nat_of_nat (by omega)]; omega
      have lengthBack : toNat (ofNat lengthBits (length - 1)) + 1 = length := by
        rw [to_nat_of_nat (by omega)]; omega
      rw [Token.bits, List.cons_append, decode, if_pos (by simp),
        List.drop_left' (by simp), List.append_assoc, List.take_left' (by simp),
        List.drop_left' (by simp), List.take_left' (by simp), distanceBack, lengthBack,
        Token.replay]

theorem decode_stream (tokens : List Token)
    (fits : ∀ token ∈ tokens, token.Fits windowBits lengthBits)
    (tail : List Bool) (history : List UInt8) :
    decode windowBits lengthBits (stream windowBits lengthBits tokens ++ tail) history =
      decode windowBits lengthBits tail (replay tokens history) := by
  induction tokens generalizing history with
  | nil => rfl
  | cons token rest ih =>
      rw [stream_cons, List.append_assoc,
        decode_token windowBits lengthBits token (fits token List.mem_cons_self),
        ih (fun later member => fits later (List.mem_cons_of_mem token member))]
      rfl

/-- Zero padding that is too short for a back reference decodes to nothing. -/
theorem decode_padding (count : Nat) (short : count ≤ windowBits + lengthBits)
    (history : List UInt8) :
    decode windowBits lengthBits (List.replicate count false) history = history := by
  cases count with
  | zero => simp [decode]
  | succ count =>
      -- A zero bit starts a back reference, and its fields are not all there.
      rw [List.replicate_succ, decode, if_neg]
      rw [List.length_replicate]
      omega

end Format

/-! Parsing. `data` holds the initial history and the input after it. -/
section Parse

variable (data : List UInt8)

def matchLength (left right : Nat) : Nat → Nat
  | 0 => 0
  | limit + 1 =>
      if data[left]? = data[right]? then matchLength (left + 1) (right + 1) limit + 1 else 0

theorem match_length_le (left right limit : Nat) : matchLength data left right limit ≤ limit := by
  induction limit generalizing left right with
  | zero => exact Nat.le_refl 0
  | succ limit ih =>
      unfold matchLength
      split
      · exact Nat.succ_le_succ (ih _ _)
      · exact Nat.zero_le _

theorem match_length_agrees (left right limit offset : Nat)
    (within : offset < matchLength data left right limit) :
    data[left + offset]? = data[right + offset]? := by
  induction limit generalizing left right offset with
  | zero => exact absurd within (Nat.not_lt_zero _)
  | succ limit ih =>
      unfold matchLength at within
      split at within
      case isTrue same =>
        cases offset with
        | zero => exact same
        | succ offset =>
            have later := ih (left + 1) (right + 1) offset (by omega)
            rw [show left + (offset + 1) = left + 1 + offset by omega,
              show right + (offset + 1) = right + 1 + offset by omega]
            exact later
      case isFalse => exact absurd within (Nat.not_lt_zero _)

theorem match_length_stops (left right limit offset : Nat)
    (differs : data[left + offset]? ≠ data[right + offset]?) :
    matchLength data left right limit ≤ offset := by
  by_contra longer
  exact differs (match_length_agrees data left right limit offset (by omega))

/-- The longest match among the distances `1 … reach`, the nearest of equals. -/
def bestMatch (position limit : Nat) : Nat → Nat × Nat
  | 0 => (0, 0)
  | reach + 1 =>
      let best := bestMatch position limit reach
      let length := matchLength data (position - (reach + 1)) position limit
      if best.1 < length then (length, reach + 1) else best

theorem best_match_skip (position limit reach : Nat)
    (beaten : matchLength data (position - (reach + 1)) position limit ≤
      (bestMatch data position limit reach).1) :
    bestMatch data position limit (reach + 1) = bestMatch data position limit reach := by
  simp only [bestMatch]
  rw [if_neg (by omega)]

theorem best_match_take (position limit reach : Nat)
    (better : (bestMatch data position limit reach).1 <
      matchLength data (position - (reach + 1)) position limit) :
    bestMatch data position limit (reach + 1) =
      (matchLength data (position - (reach + 1)) position limit, reach + 1) := by
  simp only [bestMatch]
  rw [if_pos better]

theorem best_match_sound (position limit reach : Nat) :
    let best := bestMatch data position limit reach
    best.1 ≤ limit ∧ best.2 ≤ reach ∧ (0 < best.1 → 1 ≤ best.2) ∧
      ∀ offset < best.1, data[position - best.2 + offset]? = data[position + offset]? := by
  induction reach with
  | zero => simp [bestMatch]
  | succ reach ih =>
      by_cases better : (bestMatch data position limit reach).1 <
          matchLength data (position - (reach + 1)) position limit
      · rw [best_match_take data position limit reach better]
        refine ⟨match_length_le data _ _ _, Nat.le_refl _, fun _ => by omega, ?_⟩
        intro offset bound
        exact match_length_agrees data _ _ _ _ bound
      · rw [best_match_skip data position limit reach (by omega)]
        exact ⟨ih.1, Nat.le_succ_of_le ih.2.1, ih.2.2.1, ih.2.2.2⟩

theorem best_match_full (position limit near : Nat)
    (full : (bestMatch data position limit near).1 = limit) (far : Nat) :
    bestMatch data position limit (near + far) = bestMatch data position limit near := by
  induction far with
  | zero => rfl
  | succ far ih =>
      rw [← Nat.add_assoc, best_match_skip, ih]
      rw [ih, full]
      exact match_length_le data _ _ _

/-- Distances whose first byte differs are passed over. -/
theorem best_match_gap (position limit near : Nat) (far : Nat)
    (differs : ∀ reach, near < reach → reach ≤ near + far →
      data[position - reach]? ≠ data[position]?) :
    bestMatch data position limit (near + far) = bestMatch data position limit near := by
  induction far with
  | zero => rfl
  | succ far ih =>
      rw [← Nat.add_assoc, best_match_skip,
        ih (fun reach above below => differs reach above (by omega))]
      -- The first byte decides: the match has length zero.
      have mismatch : matchLength data (position - (near + far + 1)) position limit = 0 := by
        cases limit with
        | zero => rfl
        | succ limit =>
            rw [matchLength, if_neg (differs (near + far + 1) (by omega) (by omega))]
      rw [mismatch]
      exact Nat.zero_le _

def Stretch (window : List UInt8) (base bound : Nat) : Prop :=
  ∀ index < bound, window[index]? = data[base + index]?

variable {data} in
theorem match_length_stretch {window : List UInt8} {base bound : Nat}
    (stretch : Stretch data window base bound) (left right limit : Nat)
    (before : left ≤ right) (inside : right + limit ≤ bound) :
    matchLength window left right limit = matchLength data (base + left) (base + right) limit := by
  induction limit generalizing left right with
  | zero => rfl
  | succ limit ih =>
      rw [matchLength, matchLength, stretch left (by omega), stretch right (by omega),
        ih (left + 1) (right + 1) (by omega) (by omega)]
      rfl

variable {data} in
theorem best_match_stretch {window : List UInt8} {base bound : Nat}
    (stretch : Stretch data window base bound) (position limit reach : Nat)
    (inside : position + limit ≤ bound) (behind : reach ≤ position) :
    bestMatch window position limit reach = bestMatch data (base + position) limit reach := by
  induction reach with
  | zero => rfl
  | succ reach ih =>
      have source : base + position - (reach + 1) = base + (position - (reach + 1)) := by omega
      rw [bestMatch, bestMatch, ih (by omega), source,
        match_length_stretch stretch _ _ _ (by omega) inside]

def matchAt (window limit position : Nat) : Nat × Nat :=
  bestMatch data position (min limit (data.length - position)) window

/-- The greedy parse from a position: a match must be longer than `breakEven`. -/
def greedy (window limit breakEven : Nat) (position : Nat) : List Token :=
  if inside : position < data.length then
    if breakEven < (matchAt data window limit position).1 then
      .backref (matchAt data window limit position).2 (matchAt data window limit position).1 ::
        greedy window limit breakEven (position + (matchAt data window limit position).1)
    else .literal data[position] :: greedy window limit breakEven (position + 1)
  else []
termination_by data.length - position
decreasing_by all_goals omega

inductive Parses : Nat → List Token → Nat → Prop where
  | done (position : Nat) : Parses position [] position
  | literal {position target : Nat} {rest : List Token} (byte : UInt8)
      (present : data[position]? = some byte) (later : Parses (position + 1) rest target) :
      Parses position (.literal byte :: rest) target
  | backref {position target : Nat} {rest : List Token} (distance length : Nat)
      (near : 1 ≤ distance) (reach : distance ≤ position)
      (inside : position + length ≤ data.length)
      (agrees : ∀ offset < length, data[position - distance + offset]? = data[position + offset]?)
      (later : Parses (position + length) rest target) :
      Parses position (.backref distance length :: rest) target

variable {data}

theorem parses_replay {position target : Nat} {tokens : List Token}
    (parse : Parses data position tokens target) :
    replay tokens (data.take position) = data.take target := by
  induction parse with
  | done position => rfl
  | @literal position target rest byte present later ih =>
      obtain ⟨inside, same⟩ := List.getElem?_eq_some_iff.mp present
      rw [← ih, ← List.take_append_getElem inside, same]
      rfl
  | @backref position target rest distance length near reach inside agrees later ih =>
      rw [← ih, ← copy_back_take data distance near length position reach inside agrees]
      rfl

/-- The tokens and the position they lead to fix where they start. -/
theorem parses_start {position other target : Nat} {tokens : List Token}
    (parse : Parses data position tokens target) (parse' : Parses data other tokens target) :
    position = other := by
  induction parse generalizing other with
  | done position =>
      cases parse'
      rfl
  | literal byte present later ih =>
      cases parse' with
      | literal _ _ later' => exact Nat.succ.inj (ih later')
  | backref distance length near reach inside agrees later ih =>
      cases parse' with
      | backref _ _ _ _ _ _ later' => exact Nat.add_right_cancel (ih later')

variable {window limit breakEven : Nat}

theorem greedy_end {position : Nat} (past : data.length ≤ position) :
    greedy data window limit breakEven position = [] := by
  rw [greedy, dif_neg (by omega)]

theorem greedy_ne_nil {position : Nat} (inside : position < data.length) :
    greedy data window limit breakEven position ≠ [] := by
  rw [greedy, dif_pos inside]
  split <;> exact List.cons_ne_nil _ _

theorem greedy_literal {position : Nat} {byte : UInt8} (present : data[position]? = some byte)
    (short : (matchAt data window limit position).1 ≤ breakEven) :
    greedy data window limit breakEven position =
      .literal byte :: greedy data window limit breakEven (position + 1) := by
  obtain ⟨inside, same⟩ := List.getElem?_eq_some_iff.mp present
  rw [greedy, dif_pos inside, if_neg (by omega), same]

theorem greedy_backref {position distance length : Nat} (inside : position < data.length)
    (best : matchAt data window limit position = (length, distance))
    (long : breakEven < length) :
    greedy data window limit breakEven position =
      .backref distance length :: greedy data window limit breakEven (position + length) := by
  rw [greedy, dif_pos inside, best, if_pos long]

/-- The greedy parse is a parse of the rest of the data, and its tokens fit the
fields as long as the window lies behind the position. -/
theorem greedy_parses (windowBits lengthBits : Nat) (windowFits : window ≤ 2 ^ windowBits)
    (limitFits : limit ≤ 2 ^ lengthBits) (position : Nat) (behind : window ≤ position)
    (inside : position ≤ data.length) :
    Parses data position (greedy data window limit breakEven position) data.length ∧
      ∀ token ∈ greedy data window limit breakEven position, token.Fits windowBits lengthBits := by
  obtain ⟨remaining, total⟩ := Nat.exists_eq_add_of_le inside
  induction remaining using Nat.strongRecOn generalizing position with
  | ind remaining ih =>
      by_cases finished : position = data.length
      · rw [greedy_end (by omega), finished]
        exact ⟨Parses.done _, by simp⟩
      · have here : position < data.length := by omega
        have sound := best_match_sound data position (min limit (data.length - position)) window
        rw [← matchAt] at sound
        rcases found : matchAt data window limit position with ⟨length, distance⟩
        rw [found] at sound
        obtain ⟨bounded, near, backward, agrees⟩ := sound
        simp only at bounded near backward agrees
        -- Either token moves the position forward, so the rest is shorter.
        by_cases long : breakEven < length
        · have parsed := ih (remaining - length) (by omega) (position + length) (by omega)
            (by omega) (by omega)
          rw [greedy_backref here found long]
          refine ⟨Parses.backref distance length (backward (by omega)) (by omega) (by omega)
            agrees parsed.1, ?_⟩
          intro token member
          rcases List.mem_cons.mp member with rfl | later
          · exact ⟨backward (by omega), by omega, by omega, by omega⟩
          · exact parsed.2 token later
        · have parsed := ih (remaining - 1) (by omega) (position + 1) (by omega) (by omega)
            (by omega)
          have present := List.getElem?_eq_getElem here
          rw [greedy_literal present (by rw [found]; simp only; omega)]
          refine ⟨Parses.literal _ present parsed.1, ?_⟩
          intro token member
          rcases List.mem_cons.mp member with rfl | later
          · trivial
          · exact parsed.2 token later

/-- Round trip: the decoder, started on the data before the position, returns
the whole data from the greedy parse followed by zero padding. -/
theorem decode_greedy (windowBits lengthBits : Nat) (windowFits : window ≤ 2 ^ windowBits)
    (limitFits : limit ≤ 2 ^ lengthBits) (position : Nat) (behind : window ≤ position)
    (inside : position ≤ data.length) (padding : Nat) (short : padding ≤ windowBits + lengthBits) :
    decode windowBits lengthBits
      (stream windowBits lengthBits (greedy data window limit breakEven position) ++
        List.replicate padding false) (data.take position) = data := by
  obtain ⟨parse, fits⟩ := @greedy_parses data window limit breakEven windowBits lengthBits
    windowFits limitFits position behind inside
  rw [decode_stream windowBits lengthBits _ fits, parses_replay parse, List.take_length,
    decode_padding windowBits lengthBits padding short]

/-! A token is the same in every continuation of the data that holds it. -/
section Fronts

variable (data)

theorem match_length_min (left right cut limit : Nat) (less : cut ≤ limit) :
    matchLength data left right cut = min cut (matchLength data left right limit) := by
  induction cut generalizing left right limit with
  | zero => rw [matchLength, Nat.zero_min]
  | succ cut ih =>
      cases limit with
      | zero => exact absurd less (Nat.not_succ_le_zero cut)
      | succ limit =>
          rw [matchLength, matchLength]
          split
          · rw [ih (left + 1) (right + 1) limit (Nat.le_of_succ_le_succ less)]
            omega
          · rw [Nat.min_zero]

/-- A smaller limit cuts the best match off; a match that is no longer stays the best. -/
theorem best_match_min (position cut limit reach : Nat) (less : cut ≤ limit) :
    (bestMatch data position cut reach).1 = min cut (bestMatch data position limit reach).1 ∧
      ((bestMatch data position limit reach).1 ≤ cut →
        bestMatch data position cut reach = bestMatch data position limit reach) := by
  induction reach with
  | zero => simp [bestMatch]
  | succ reach ih =>
      obtain ⟨length, same⟩ := ih
      have shorter := match_length_min data (position - (reach + 1)) position cut limit less
      rw [bestMatch, bestMatch, shorter, length]
      by_cases better : (bestMatch data position limit reach).1 <
          matchLength data (position - (reach + 1)) position limit
      · rw [if_pos better]
        by_cases kept : min cut (bestMatch data position limit reach).1 <
            min cut (matchLength data (position - (reach + 1)) position limit)
        · rw [if_pos kept]
          exact ⟨rfl, fun inside => by rw [Nat.min_eq_right inside]⟩
        · rw [if_neg kept]
          exact ⟨by simp only [length]; omega, fun inside => by simp only at inside; omega⟩
      · rw [if_neg better, if_neg (by omega)]
        exact ⟨length, same⟩

variable {data} {more : List UInt8} {window limit breakEven : Nat}

theorem match_at_front {position : Nat} (behind : window ≤ position)
    (inside : position ≤ data.length) :
    (matchAt data window limit position).1 ≤ (matchAt (data ++ more) window limit position).1 ∧
      (position + (matchAt (data ++ more) window limit position).1 ≤ data.length →
        matchAt data window limit position = matchAt (data ++ more) window limit position) := by
  have stretch : Stretch (data ++ more) data 0 data.length := by
    intro index bound
    rw [Nat.zero_add, List.getElem?_append_left bound]
  have front := best_match_stretch stretch position (min limit (data.length - position)) window
    (by omega) behind
  rw [Nat.zero_add] at front
  have sound := (best_match_sound (data ++ more) position
    (min limit ((data ++ more).length - position)) window).1
  obtain ⟨length, same⟩ := best_match_min (data ++ more) position
    (min limit (data.length - position)) (min limit ((data ++ more).length - position)) window
    (by rw [List.length_append]; omega)
  rw [matchAt, matchAt, front]
  refine ⟨by rw [length]; omega, fun held => same ?_⟩
  omega

theorem parses_le {position target : Nat} {tokens : List Token}
    (parse : Parses data position tokens target) : position ≤ target := by
  induction parse with
  | done position => exact Nat.le_refl _
  | literal byte present later ih => exact Nat.le_of_succ_le ih
  | backref distance length near reach inside agrees later ih => exact Nat.le_of_add_right_le ih

theorem parses_split {position target : Nat} {front back : List Token}
    (parse : Parses data position (front ++ back) target) :
    ∃ middle, Parses data position front middle ∧ Parses data middle back target := by
  induction front generalizing position with
  | nil => exact ⟨position, .done position, parse⟩
  | cons token front ih =>
      cases parse with
      | literal byte present later =>
          obtain ⟨middle, first, rest⟩ := ih later
          exact ⟨middle, .literal byte present first, rest⟩
      | backref distance length near reach inside agrees later =>
          obtain ⟨middle, first, rest⟩ := ih later
          exact ⟨middle, .backref distance length near reach inside agrees first, rest⟩

theorem greedy_tokens_front {position target : Nat} {tokens : List Token}
    (parse : Parses (data ++ more) position tokens target) (behind : window ≤ position)
    (inside : target ≤ data.length)
    (split : greedy (data ++ more) window limit breakEven position =
      tokens ++ greedy (data ++ more) window limit breakEven target) :
    greedy data window limit breakEven position =
      tokens ++ greedy data window limit breakEven target := by
  induction parse with
  | done position => rfl
  | @literal position target rest byte present later ih =>
      have within : position + 1 ≤ data.length := Nat.le_trans (parses_le later) inside
      have front := @match_at_front data more window limit position behind (by omega)
      have here := (List.getElem?_eq_some_iff.mp present).1
      by_cases long : breakEven < (matchAt (data ++ more) window limit position).1
      · rw [greedy_backref here rfl long, List.cons_append] at split
        cases split
      · rw [greedy_literal present (by omega), List.cons_append] at split
        have same := ih (by omega) inside (List.cons.inj split).2
        rw [List.getElem?_append_left within] at present
        rw [greedy_literal present (by omega), same, List.cons_append]
  | @backref position target rest distance length near reach held agrees later ih =>
      have within : position + length ≤ data.length := Nat.le_trans (parses_le later) inside
      have here : position < (data ++ more).length := by
        by_contra past
        rw [greedy_end (by omega), List.cons_append] at split
        cases split
      by_cases long : breakEven < (matchAt (data ++ more) window limit position).1
      · rw [greedy_backref here rfl long, List.cons_append] at split
        obtain ⟨token, tail⟩ := List.cons.inj split
        cases token
        have front := (@match_at_front data more window limit position behind (by omega)).2 within
        have same := ih (by omega) inside tail
        have started : position < data.length :=
          Nat.lt_of_lt_of_le (Nat.lt_add_of_pos_right (Nat.zero_lt_of_lt long)) within
        rw [greedy_backref started front long, same, List.cons_append]
      · rw [greedy_literal (List.getElem?_eq_getElem here) (by omega), List.cons_append] at split
        cases split

/-- A front of the greedy parse that ends in the data is a front of its greedy parse. -/
theorem greedy_front {position target : Nat} {tokens : List Token} (behind : window ≤ position)
    (started : position ≤ data.length) (later : window ≤ target) (inside : target ≤ data.length)
    (split : greedy (data ++ more) window limit breakEven position =
      tokens ++ greedy (data ++ more) window limit breakEven target) :
    greedy data window limit breakEven position =
      tokens ++ greedy data window limit breakEven target := by
  have fits : data.length ≤ (data ++ more).length := by
    rw [List.length_append]
    exact Nat.le_add_right _ _
  have whole := (@greedy_parses (data ++ more) window limit breakEven window limit
    Nat.lt_two_pow_self.le Nat.lt_two_pow_self.le position behind (by omega)).1
  have tail := (@greedy_parses (data ++ more) window limit breakEven window limit
    Nat.lt_two_pow_self.le Nat.lt_two_pow_self.le target later (by omega)).1
  rw [split] at whole
  obtain ⟨middle, parse, rest⟩ := parses_split whole
  cases parses_start rest tail
  exact greedy_tokens_front parse behind inside split

end Fronts

end Parse

end ThingyAccel.Lzss
