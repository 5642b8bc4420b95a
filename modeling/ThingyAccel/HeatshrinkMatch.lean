import ThingyAccel.Lzss
import ThingyAccel.HeatshrinkEncoder

/-!
The search index and the indexed search of src/heatshrink_encoder.c against the
linear search of `Lzss.bestMatch`: the index links every byte to its previous
occurrence, and following the links finds the longest and then nearest match.
-/
namespace ThingyAccel.HeatshrinkMatch

open Memory Lzss HeatshrinkEncoder

def LastBefore (data : List UInt8) (position : Nat) (value : Option UInt8) (entry : Int) : Prop :=
  (entry = -1 ∧ ∀ earlier < position, data[earlier]? ≠ value) ∨
    ∃ found < position, entry = (found : Int) ∧ data[found]? = value ∧
      ∀ between, found < between → between < position → data[between]? ≠ value

/-- The first `count` index entries link equal bytes. -/
def IndexExact (data : List UInt8) (index : List Int) (count : Nat) : Prop :=
  ∀ position < count, ∃ entry, index[position]? = some entry ∧
    LastBefore data position data[position]? entry

theorem last_before_step {data : List UInt8} {position : Nat} {last : UInt8 → Int} {value : UInt8}
    (present : data[position]? = some value)
    (exact : ∀ byte, LastBefore data position (some byte) (last byte)) (byte : UInt8) :
    LastBefore data (position + 1) (some byte)
      (if byte = value then (position : Int) else last byte) := by
  by_cases same : byte = value
  · subst byte
    refine Or.inr ⟨position, Nat.lt_succ_self position, by simp, present, ?_⟩
    intro between above below
    omega
  · have different : data[position]? ≠ some byte := by
      rw [present]
      exact fun equal => same (Option.some.inj equal).symm
    simp only [same, ↓reduceIte]
    rcases exact byte with ⟨absent, none⟩ | ⟨found, before, entry, holds, latest⟩
    · refine Or.inl ⟨absent, ?_⟩
      intro earlier bound
      rcases Nat.lt_succ_iff_lt_or_eq.mp bound with below | rfl
      · exact none earlier below
      · exact different
    · refine Or.inr ⟨found, Nat.lt_succ_of_lt before, entry, holds, ?_⟩
      intro between above below
      rcases Nat.lt_succ_iff_lt_or_eq.mp below with inner | rfl
      · exact latest between above inner
      · exact different

theorem index_entries_exact (data : List UInt8) (remaining position : Nat) (last : UInt8 → Int)
    (inside : position + remaining ≤ data.length)
    (exact : ∀ byte, LastBefore data position (some byte) (last byte)) :
    ∃ entries, indexEntries data remaining position last = .ok entries ∧
      entries.length = remaining ∧
      ∀ offset < remaining, ∃ entry, entries[offset]? = some entry ∧
        LastBefore data (position + offset) data[position + offset]? entry := by
  induction remaining generalizing position last with
  | zero => exact ⟨[], rfl, rfl, fun offset bound => absurd bound (Nat.not_lt_zero _)⟩
  | succ remaining ih =>
      have present := List.getElem?_eq_getElem (by omega : position < data.length)
      obtain ⟨rest, computed, count, linked⟩ :=
        ih (position + 1) _ (by omega) (last_before_step present exact)
      refine ⟨last data[position] :: rest, ?_, by simp [count], ?_⟩
      · rw [indexEntries, read_at_some present, checked_bind, computed, checked_bind]
      · intro offset bound
        cases offset with
        | zero =>
            refine ⟨last data[position], rfl, ?_⟩
            rw [Nat.add_zero, present]
            exact exact data[position]
        | succ offset =>
            obtain ⟨entry, read, holds⟩ := linked offset (by omega)
            refine ⟨entry, read, ?_⟩
            have shifted : position + (offset + 1) = position + 1 + offset := by omega
            rwa [shifted]

theorem do_indexing_exact (hse : Encoder)
    (inside : getInputOffset hse + hse.inputSize ≤ hse.buffer.length) :
    ∃ index, doIndexing hse = .ok { hse with searchIndex := index } ∧
      IndexExact hse.buffer index (getInputOffset hse + hse.inputSize) := by
  obtain ⟨entries, computed, count, linked⟩ :=
    index_entries_exact hse.buffer (getInputOffset hse + hse.inputSize) 0 (fun _ => -1)
      (by omega) (fun byte => Or.inl ⟨rfl, by intro earlier bound; omega⟩)
  refine ⟨entries ++ hse.searchIndex.drop (getInputOffset hse + hse.inputSize), ?_, ?_⟩
  · rw [doIndexing, computed, checked_bind]
  · intro position bound
    obtain ⟨entry, read, holds⟩ := linked position bound
    rw [Nat.zero_add] at holds
    exact ⟨entry, by rw [List.getElem?_append_left (by omega), read], holds⟩

theorem extend_match_exact (buf : List UInt8) (pos stop remaining len : Nat)
    (before : pos ≤ stop) (inside : stop + len + remaining ≤ buf.length) :
    extendMatch buf pos stop remaining len =
      .ok (len + matchLength buf (pos + len) (stop + len) remaining) := by
  induction remaining generalizing len with
  | zero => rfl
  | succ remaining ih =>
      have there := List.getElem?_eq_getElem (by omega : pos + len < buf.length)
      have here := List.getElem?_eq_getElem (by omega : stop + len < buf.length)
      rw [extendMatch, read_at_some there, checked_bind, read_at_some here, checked_bind,
        matchLength, there, here]
      by_cases same : buf[pos + len] = buf[stop + len]
      · rw [if_neg (by simpa using same), if_pos (by rw [same]), ih (len + 1) (by omega)]
        congr 1
        have left : pos + (len + 1) = pos + len + 1 := by omega
        have right : stop + (len + 1) = stop + len + 1 := by omega
        rw [left, right]
        omega
      · rw [if_pos same, if_neg (fun equal => same (Option.some.inj equal))]
        rfl

theorem extend_match_counts (buf : List UInt8) (pos stop maxlen : Nat) (before : pos ≤ stop)
    (positive : 1 ≤ maxlen) (inside : stop + maxlen ≤ buf.length)
    (same : buf[pos]? = buf[stop]?) :
    extendMatch buf pos stop (maxlen - 1) 1 = .ok (matchLength buf pos stop maxlen) := by
  rw [extend_match_exact buf pos stop (maxlen - 1) 1 before (by omega)]
  obtain ⟨limit, rfl⟩ : ∃ limit, maxlen = limit + 1 := ⟨maxlen - 1, by omega⟩
  rw [Nat.add_sub_cancel, matchLength, if_pos same, Nat.add_comm]

section Search

variable {hse : Encoder} {start stop maxlen : Nat}

def examinedFrom (start : Nat) (pos : Int) : Nat := max start (pos + 1).toNat

/-- What the search knows at `pos`: every candidate above `pos` was examined,
and `matchIndex` is where the best of them starts. -/
structure SearchInv (hse : Encoder) (start stop maxlen : Nat) (pos : Int)
    (matchMaxlen matchIndex : Nat) : Prop where
  below : pos < stop
  sameByte : 0 ≤ pos → hse.buffer[pos.toNat]? = hse.buffer[stop]?
  shorter : matchMaxlen < maxlen
  longest : (bestMatch hse.buffer stop maxlen (stop - examinedFrom start pos)).1 = matchMaxlen
  nearest : 0 < matchMaxlen → matchIndex ≤ stop ∧
    (bestMatch hse.buffer stop maxlen (stop - examinedFrom start pos)).2 = stop - matchIndex

theorem link_skips_nothing {data : List UInt8} {cut : Nat} {entry : Int} (above : start ≤ cut)
    (reach : cut ≤ stop) (linked : LastBefore data cut data[stop]? entry) :
    bestMatch data stop maxlen (stop - examinedFrom start entry) =
      bestMatch data stop maxlen (stop - cut) := by
  have differs : ∀ position, examinedFrom start entry ≤ position → position < cut →
      data[position]? ≠ data[stop]? := by
    intro position low high
    rcases linked with ⟨absent, none⟩ | ⟨found, before, rfl, holds, latest⟩
    · exact none position high
    · simp only [examinedFrom] at low
      exact latest position (by omega) high
  have lower : examinedFrom start entry ≤ cut := by
    rcases linked with ⟨rfl, none⟩ | ⟨found, before, rfl, holds, latest⟩ <;>
      simp only [examinedFrom] <;> omega
  have split : stop - examinedFrom start entry =
      (stop - cut) + (cut - examinedFrom start entry) := by omega
  rw [split]
  apply best_match_gap
  intro distance near far
  exact differs (stop - distance) (by omega) (by omega)

theorem search_inv_link {cut matchMaxlen matchIndex : Nat} {entry : Int}
    (above : start ≤ cut) (reach : cut ≤ stop)
    (linked : LastBefore hse.buffer cut hse.buffer[stop]? entry)
    (shorter : matchMaxlen < maxlen)
    (longest : (bestMatch hse.buffer stop maxlen (stop - cut)).1 = matchMaxlen)
    (nearest : 0 < matchMaxlen → matchIndex ≤ stop ∧
      (bestMatch hse.buffer stop maxlen (stop - cut)).2 = stop - matchIndex) :
    SearchInv hse start stop maxlen entry matchMaxlen matchIndex := by
  have skipped := @link_skips_nothing start stop maxlen hse.buffer cut entry above reach linked
  refine ⟨?_, ?_, shorter, by rw [skipped, longest], by rw [skipped]; exact nearest⟩
  · rcases linked with ⟨rfl, none⟩ | ⟨found, before, rfl, holds, latest⟩ <;> omega
  · intro present
    rcases linked with ⟨rfl, none⟩ | ⟨found, before, rfl, holds, latest⟩
    · omega
    · exact holds

theorem scan_matches_exact (bounded : start ≤ stop) (positive : 1 ≤ maxlen)
    (inside : stop + maxlen ≤ hse.buffer.length)
    (indexed : IndexExact hse.buffer hse.searchIndex (stop + 1)) (fuel : Nat) (pos : Int)
    (matchMaxlen matchIndex : Nat) (enough : (pos + 1).toNat < fuel)
    (inv : SearchInv hse start stop maxlen pos matchMaxlen matchIndex) :
    ∃ found, scanMatches hse start stop maxlen fuel pos matchMaxlen matchIndex = .ok found ∧
      found.1 = (bestMatch hse.buffer stop maxlen (stop - start)).1 ∧
      (0 < found.1 → found.2 ≤ stop ∧
        (bestMatch hse.buffer stop maxlen (stop - start)).2 = stop - found.2) := by
  induction fuel generalizing pos matchMaxlen matchIndex with
  | zero => omega
  | succ fuel ih =>
      obtain ⟨below, sameByte, shorter, longest, nearest⟩ := inv
      by_cases reached : 0 ≤ pos - start
      case neg =>
        -- The walk has left the window: every distance has been examined.
        have finished : examinedFrom start pos = start := by simp only [examinedFrom]; omega
        rw [finished] at longest nearest
        refine ⟨(matchMaxlen, matchIndex), ?_, longest.symm, nearest⟩
        rw [scanMatches, if_neg reached]
      case pos =>
        obtain ⟨here, rfl⟩ : ∃ here : Nat, pos = (here : Int) := ⟨pos.toNat, by omega⟩
        have same : hse.buffer[here]? = hse.buffer[stop]? := by simpa using sameByte (by omega)
        have examined : examinedFrom start (here : Int) = here + 1 := by
          simp only [examinedFrom]; omega
        rw [examined] at longest nearest
        have step : stop - here = stop - (here + 1) + 1 := by omega
        have source : stop - (stop - (here + 1) + 1) = here := by omega
        obtain ⟨entry, read, linked⟩ := indexed here (by omega)
        rw [same] at linked
        have smaller : (entry + 1).toNat < fuel := by
          rcases linked with ⟨rfl, none⟩ | ⟨found, before, rfl, holds, latest⟩ <;> omega
        have there := List.getElem?_eq_getElem (by omega : here + matchMaxlen < hse.buffer.length)
        have needle := List.getElem?_eq_getElem (by omega : stop + matchMaxlen < hse.buffer.length)
        -- A candidate that does not beat the best one leaves it in place.
        have unchanged (beaten : matchLength hse.buffer here stop maxlen ≤ matchMaxlen) :
            SearchInv hse start stop maxlen entry matchMaxlen matchIndex := by
          have kept := best_match_skip hse.buffer stop maxlen (stop - (here + 1))
            (by rw [source, longest]; exact beaten)
          rw [← step] at kept
          exact search_inv_link (by omega) (by omega) linked shorter (by rw [kept, longest])
            (by rw [kept]; exact nearest)
        rw [scanMatches, if_pos reached, Int.toNat_natCast]
        simp only [read_at_some there, read_at_some needle, checked_bind]
        by_cases differs : hse.buffer[here + matchMaxlen] = hse.buffer[stop + matchMaxlen]
        case neg =>
          have beaten := match_length_stops hse.buffer here stop maxlen matchMaxlen
            (by rw [there, needle]; exact fun equal => differs (Option.some.inj equal))
          rw [if_pos differs, read_at_some read, checked_bind]
          exact ih entry matchMaxlen matchIndex smaller (unchanged beaten)
        case pos =>
          rw [if_neg (by simpa using differs),
            extend_match_counts hse.buffer here stop maxlen (by omega) positive inside same,
            checked_bind]
          by_cases better : matchMaxlen < matchLength hse.buffer here stop maxlen
          case neg =>
            rw [if_neg better, read_at_some read, checked_bind]
            exact ih entry matchMaxlen matchIndex smaller (unchanged (by omega))
          case pos =>
            have taken := best_match_take hse.buffer stop maxlen (stop - (here + 1))
              (by rw [source, longest]; exact better)
            rw [source, ← step] at taken
            rw [if_pos better]
            by_cases full : matchLength hse.buffer here stop maxlen = maxlen
            · -- The walk stops early: nothing further down is longer.
              have rest := best_match_full hse.buffer stop maxlen (stop - here)
                (by rw [taken]; exact full) (here - start)
              have total : stop - here + (here - start) = stop - start := by omega
              rw [total, taken] at rest
              rw [if_pos full, rest]
              exact ⟨_, rfl, rfl, fun _ => ⟨by omega, rfl⟩⟩
            · have bound := match_length_le hse.buffer here stop maxlen
              rw [if_neg full, read_at_some read, checked_bind]
              apply ih entry _ here smaller
              exact search_inv_link (by omega) (by omega) linked (by omega) (by rw [taken])
                (by rw [taken]; exact fun _ => ⟨by omega, rfl⟩)

/-- The indexed search returns the best match of the linear search when it is
worth a back reference, and reports no match otherwise. -/
theorem find_longest_match_exact (bounded : start ≤ stop) (positive : 1 ≤ maxlen)
    (inside : stop + maxlen ≤ hse.buffer.length)
    (indexed : IndexExact hse.buffer hse.searchIndex (stop + 1)) :
    findLongestMatch hse start stop maxlen = .ok
      (if (1 + hse.windowSz2 + hse.lookaheadSz2) / 8 <
          (bestMatch hse.buffer stop maxlen (stop - start)).1
        then ((bestMatch hse.buffer stop maxlen (stop - start)).2,
          (bestMatch hse.buffer stop maxlen (stop - start)).1)
        else (matchNotFound, 0)) := by
  obtain ⟨entry, read, linked⟩ := indexed stop (by omega)
  have nothing : bestMatch hse.buffer stop maxlen (stop - stop) = (0, 0) := by
    rw [Nat.sub_self]; rfl
  have initial : SearchInv hse start stop maxlen entry 0 matchNotFound :=
    search_inv_link bounded (Nat.le_refl stop) linked (by omega) (by rw [nothing])
      (fun impossible => absurd impossible (Nat.lt_irrefl 0))
  have below := initial.below
  obtain ⟨⟨length, position⟩, computed, longest, nearest⟩ :=
    scan_matches_exact bounded positive inside indexed (stop + 1) entry 0 matchNotFound
      (by omega) initial
  simp only [findLongestMatch, read_at_some read, checked_bind, computed]
  simp only at longest nearest
  rw [← longest]
  by_cases worth : (1 + hse.windowSz2 + hse.lookaheadSz2) / 8 < length
  · rw [if_pos worth, if_pos worth, (nearest (by omega)).2]
  · rw [if_neg worth, if_neg worth]

end Search

end ThingyAccel.HeatshrinkMatch
