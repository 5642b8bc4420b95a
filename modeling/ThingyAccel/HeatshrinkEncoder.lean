import Mathlib.Data.List.Basic
import ThingyAccel.Memory

/-!
src/heatshrink_encoder.c with dynamic allocation and the search index, as
heatshrink_config.h selects them. The encoder is a state record that `sink`,
`poll` and `finish` transform. Counters are naturals; with a window of 512
bytes none of them leaves its 16-bit type. Null pointers are outside the model.
-/
namespace ThingyAccel.HeatshrinkEncoder

open Memory

inductive HseState where
  | notFull
  | filled
  | search
  | yieldTagBit
  | yieldLiteral
  | yieldBrIndex
  | yieldBrLength
  | saveBacklog
  | flushBits
  | done
  deriving DecidableEq, Repr

inductive SinkRes where
  | ok
  | errorMisuse
  deriving DecidableEq, Repr

inductive PollRes where
  | empty
  | more
  | errorMisuse
  deriving DecidableEq, Repr

inductive FinishRes where
  | done
  | more
  deriving DecidableEq, Repr

/-- `searchIndex` lists the entries written so far: reading an entry that
`malloc` left uninitialised is a fault, like reading past the array. -/
structure Encoder where
  inputSize : Nat
  matchScanIndex : Nat
  matchLength : Nat
  matchPos : Nat
  outgoingBits : Nat
  outgoingBitsCount : Nat
  flags : UInt8
  state : HseState
  currentByte : UInt8
  bitIndex : UInt8
  windowSz2 : Nat
  lookaheadSz2 : Nat
  searchIndex : List Int
  buffer : List UInt8
  deriving DecidableEq, Repr

/-- `output_info`: the bytes pushed to the caller's buffer and their limit. -/
structure OutputInfo where
  buf : List UInt8
  bufSize : Nat
  deriving DecidableEq, Repr

def OutputInfo.outputSize (oi : OutputInfo) : Nat := oi.buf.length

def flagIsFinishing : UInt8 := 0x01

def minWindowBits : Nat := 4
def maxWindowBits : Nat := 15
def minLookaheadBits : Nat := 3
def literalMarker : UInt8 := 1
def backrefMarker : UInt8 := 0
def matchNotFound : Nat := 65535

def heatshrinkEncoderReset (hse : Encoder) : Encoder :=
  { hse with
    buffer := List.replicate (2 <<< hse.windowSz2) 0
    inputSize := 0
    state := .notFull
    matchScanIndex := 0
    flags := 0
    bitIndex := 0x80
    currentByte := 0x00
    matchLength := 0
    outgoingBits := 0
    outgoingBitsCount := 0 }

/-- Each flag says whether one of the two `malloc` calls succeeds. Fields that
neither the allocation nor the reset writes start as zero here. -/
def heatshrinkEncoderAlloc (windowSz2 lookaheadSz2 : Nat) (encoderMemory indexMemory : Bool) :
    Option Encoder :=
  if windowSz2 < minWindowBits ∨ maxWindowBits < windowSz2 ∨
      lookaheadSz2 < minLookaheadBits ∨ windowSz2 ≤ lookaheadSz2 then none
  else if !encoderMemory then none
  else
    let hse := heatshrinkEncoderReset
      { inputSize := 0, matchScanIndex := 0, matchLength := 0, matchPos := 0, outgoingBits := 0,
        outgoingBitsCount := 0, flags := 0, state := .notFull, currentByte := 0,
        bitIndex := 0, windowSz2 := windowSz2, lookaheadSz2 := lookaheadSz2, searchIndex := [],
        buffer := [] }
    if !indexMemory then none else some hse

def getInputBufferSize (hse : Encoder) : Nat := 1 <<< hse.windowSz2

def getInputOffset (hse : Encoder) : Nat := getInputBufferSize hse

def getLookaheadSize (hse : Encoder) : Nat := 1 <<< hse.lookaheadSz2

def isFinishing (hse : Encoder) : Bool := hse.flags &&& flagIsFinishing ≠ 0

/-- The third component is the value left in `*input_size`, if any. -/
def heatshrinkEncoderSink (hse : Encoder) (inBuf : List UInt8) (size : Nat) :
    Checked (SinkRes × Encoder × Option Nat) :=
  if isFinishing hse then .ok (.errorMisuse, hse, none)
  else if hse.state ≠ .notFull then .ok (.errorMisuse, hse, none)
  else do
    let writeOffset := getInputOffset hse + hse.inputSize
    let ibs := getInputBufferSize hse
    let rem := ibs - hse.inputSize
    -- Only what still fits into the window is copied.
    let cpSz := if rem < size then rem else size
    if inBuf.length < cpSz then .error .outOfBounds
    else
      let buffer ← writeAt hse.buffer writeOffset (inBuf.take cpSz)
      let state := if cpSz = rem then .filled else hse.state
      .ok (.ok, { hse with buffer := buffer, inputSize := hse.inputSize + cpSz, state := state },
        some cpSz)

def heatshrinkEncoderFinish (hse : Encoder) : FinishRes × Encoder :=
  let state := if hse.state = .notFull then .filled else hse.state
  (if state = .done then .done else .more,
    { hse with flags := hse.flags ||| flagIsFinishing, state := state })

theorem finish_marks (hse : Encoder) : isFinishing (heatshrinkEncoderFinish hse).2 = true := by
  apply decide_eq_true
  intro cleared
  have bit := congrArg (fun byte => byte.toNat.testBit 0) cleared
  simp only [heatshrinkEncoderFinish, flagIsFinishing, UInt8.toNat_and, UInt8.toNat_or,
    Nat.testBit_and, Nat.testBit_or] at bit
  simp at bit

/-! Output. -/

def pushByte (oi : OutputInfo) (byte : UInt8) : Checked OutputInfo :=
  if oi.outputSize < oi.bufSize then .ok { oi with buf := oi.buf ++ [byte] }
  else .error .outOfBounds

def canTakeByte (oi : OutputInfo) : Bool := oi.outputSize < oi.bufSize

def pushBitLoop (bits : UInt8) : Nat → Encoder → OutputInfo → Checked (Encoder × OutputInfo)
  | 0, hse, oi => .ok (hse, oi)
  | i + 1, hse, oi =>
      let bit := bits.toNat.testBit i
      let currentByte := if bit then hse.currentByte ||| hse.bitIndex else hse.currentByte
      let bitIndex := hse.bitIndex >>> 1
      -- The mask has walked off the byte, so the byte is complete.
      if bitIndex = 0x00 then do
        let oi ← pushByte oi currentByte
        pushBitLoop bits i { hse with currentByte := 0x00, bitIndex := 0x80 } oi
      else pushBitLoop bits i { hse with currentByte := currentByte, bitIndex := bitIndex } oi

def pushBits (hse : Encoder) (count : Nat) (bits : UInt8) (oi : OutputInfo) :
    Checked (Encoder × OutputInfo) :=
  if count = 8 ∧ hse.bitIndex = 0x80 then do
    let oi ← pushByte oi bits
    .ok (hse, oi)
  else pushBitLoop bits count hse oi

def addTagBit (hse : Encoder) (oi : OutputInfo) (tag : UInt8) : Checked (Encoder × OutputInfo) :=
  pushBits hse 1 tag oi

/-- The first component is the returned bit count. The assignment to the 8-bit
`bits` keeps the low byte. -/
def pushOutgoingBits (hse : Encoder) (oi : OutputInfo) : Checked (Nat × Encoder × OutputInfo) :=
  let count := if 8 < hse.outgoingBitsCount then 8 else hse.outgoingBitsCount
  let bits := if 8 < hse.outgoingBitsCount then
      UInt8.ofNat (hse.outgoingBits >>> (hse.outgoingBitsCount - 8))
    else UInt8.ofNat hse.outgoingBits
  if 0 < count then do
    let (hse, oi) ← pushBits hse count bits oi
    .ok (count, { hse with outgoingBitsCount := hse.outgoingBitsCount - count }, oi)
  else .ok (count, hse, oi)

def pushLiteralByte (hse : Encoder) (oi : OutputInfo) : Checked (Encoder × OutputInfo) := do
  let processedOffset := hse.matchScanIndex - 1
  let inputOffset := getInputOffset hse + processedOffset
  let c ← readAt hse.buffer inputOffset
  pushBits hse 8 c oi

/-! Matching. -/

/-- `last[v]` holds the previous position of byte `v`, or -1. -/
def indexEntries (data : List UInt8) : Nat → Nat → (UInt8 → Int) → Checked (List Int)
  | 0, _, _ => .ok []
  | remaining + 1, i, last => do
      let v ← readAt data i
      let rest ← indexEntries data remaining (i + 1) (fun w => if w = v then (i : Int) else last w)
      .ok (last v :: rest)

def doIndexing (hse : Encoder) : Checked Encoder := do
  let inputOffset := getInputOffset hse
  let stop := inputOffset + hse.inputSize
  let entries ← indexEntries hse.buffer stop 0 (fun _ => -1)
  .ok { hse with searchIndex := entries ++ hse.searchIndex.drop stop }

def extendMatch (buf : List UInt8) (pos stop : Nat) : Nat → Nat → Checked Nat
  | 0, len => .ok len
  | remaining + 1, len => do
      let there ← readAt buf (pos + len)
      let here ← readAt buf (stop + len)
      if there ≠ here then .ok len else extendMatch buf pos stop remaining (len + 1)

def scanMatches (hse : Encoder) (start stop maxlen : Nat) :
    Nat → Int → Nat → Nat → Checked (Nat × Nat)
  | 0, _, _, _ => .error .outOfFuel
  | fuel + 1, pos, matchMaxlen, matchIndex =>
      if 0 ≤ pos - start then do
        let here := pos.toNat
        -- The byte behind the best match so far rules out what cannot beat it.
        let there ← readAt hse.buffer (here + matchMaxlen)
        let needle ← readAt hse.buffer (stop + matchMaxlen)
        if there ≠ needle then
          let pos ← readAt hse.searchIndex here
          scanMatches hse start stop maxlen fuel pos matchMaxlen matchIndex
        else
          let len ← extendMatch hse.buffer here stop (maxlen - 1) 1
          if matchMaxlen < len then
            -- No candidate further down can be longer.
            if len = maxlen then .ok (len, here)
            else
              let pos ← readAt hse.searchIndex here
              scanMatches hse start stop maxlen fuel pos len here
          else
            let pos ← readAt hse.searchIndex here
            scanMatches hse start stop maxlen fuel pos matchMaxlen matchIndex
      else .ok (matchMaxlen, matchIndex)

/-- Returns the distance and the value left in `*match_length`, which starts at
zero. Positions fall along the walk, so `stop + 1` rounds are enough. -/
def findLongestMatch (hse : Encoder) (start stop maxlen : Nat) : Checked (Nat × Nat) := do
  let pos ← readAt hse.searchIndex stop
  let (matchMaxlen, matchIndex) ← scanMatches hse start stop maxlen (stop + 1) pos 0 matchNotFound
  let breakEvenPoint := 1 + hse.windowSz2 + hse.lookaheadSz2
  if breakEvenPoint / 8 < matchMaxlen then .ok (stop - matchIndex, matchMaxlen)
  else .ok (matchNotFound, 0)

/-! The state functions of `heatshrink_encoder_poll`; each returns the next state. -/

def stStepSearch (hse : Encoder) : Checked (HseState × Encoder) :=
  let windowLength := getInputBufferSize hse
  let lookaheadSz := getLookaheadSize hse
  let msi := hse.matchScanIndex
  let fin := isFinishing hse
  -- While input may still come, a whole lookahead stays behind the scan.
  if (hse.inputSize : Int) - (if fin then 1 else lookaheadSz : Nat) < msi then
    .ok (if fin then .flushBits else .saveBacklog, hse)
  else do
    let inputOffset := getInputOffset hse
    let stop := inputOffset + msi
    let start := stop - windowLength
    let maxPossible :=
      if hse.inputSize - msi < lookaheadSz then hse.inputSize - msi else lookaheadSz
    let (matchPos, matchLength) ← findLongestMatch hse start stop maxPossible
    if matchPos = matchNotFound then
      .ok (.yieldTagBit, { hse with matchScanIndex := hse.matchScanIndex + 1, matchLength := 0 })
    else
      .ok (.yieldTagBit, { hse with matchPos := matchPos, matchLength := matchLength })

def stYieldTagBit (hse : Encoder) (oi : OutputInfo) : Checked (HseState × Encoder × OutputInfo) :=
  if canTakeByte oi then
    if hse.matchLength = 0 then do
      let (hse, oi) ← addTagBit hse oi literalMarker
      .ok (.yieldLiteral, hse, oi)
    else do
      let (hse, oi) ← addTagBit hse oi backrefMarker
      .ok (.yieldBrIndex,
        { hse with outgoingBits := hse.matchPos - 1, outgoingBitsCount := hse.windowSz2 }, oi)
  else .ok (.yieldTagBit, hse, oi)

def stYieldLiteral (hse : Encoder) (oi : OutputInfo) :
    Checked (HseState × Encoder × OutputInfo) :=
  if canTakeByte oi then do
    let (hse, oi) ← pushLiteralByte hse oi
    .ok (.search, hse, oi)
  else .ok (.yieldLiteral, hse, oi)

def stYieldBrIndex (hse : Encoder) (oi : OutputInfo) :
    Checked (HseState × Encoder × OutputInfo) :=
  if canTakeByte oi then do
    let (count, hse, oi) ← pushOutgoingBits hse oi
    if 0 < count then .ok (.yieldBrIndex, hse, oi)
    else
      .ok (.yieldBrLength,
        { hse with outgoingBits := hse.matchLength - 1, outgoingBitsCount := hse.lookaheadSz2 },
        oi)
  else .ok (.yieldBrIndex, hse, oi)

def stYieldBrLength (hse : Encoder) (oi : OutputInfo) :
    Checked (HseState × Encoder × OutputInfo) :=
  if canTakeByte oi then do
    let (count, hse, oi) ← pushOutgoingBits hse oi
    if 0 < count then .ok (.yieldBrLength, hse, oi)
    else
      .ok (.search,
        { hse with matchScanIndex := hse.matchScanIndex + hse.matchLength, matchLength := 0 }, oi)
  else .ok (.yieldBrLength, hse, oi)

def saveBacklog (hse : Encoder) : Checked Encoder := do
  let inputBufSz := getInputBufferSize hse
  let msi := hse.matchScanIndex
  let rem := inputBufSz - msi
  let shiftSz := inputBufSz + rem
  if hse.buffer.length < inputBufSz - rem + shiftSz then .error .outOfBounds
  else
    let buffer ← writeAt hse.buffer 0 ((hse.buffer.drop (inputBufSz - rem)).take shiftSz)
    .ok { hse with
      buffer := buffer, matchScanIndex := 0, inputSize := hse.inputSize - (inputBufSz - rem) }

def stSaveBacklog (hse : Encoder) : Checked (HseState × Encoder) := do
  let hse ← saveBacklog hse
  .ok (.notFull, hse)

def stFlushBitBuffer (hse : Encoder) (oi : OutputInfo) :
    Checked (HseState × Encoder × OutputInfo) :=
  -- Without a pending bit there is nothing to flush.
  if hse.bitIndex = 0x80 then .ok (.done, hse, oi)
  else if canTakeByte oi then do
    let oi ← pushByte oi hse.currentByte
    .ok (.done, hse, oi)
  else .ok (.flushBits, hse, oi)

/-- One pass through the `switch` of the poll loop. A result ends the call;
`HSES_FLUSH_BITS` falls through to `HSES_DONE`, which returns. -/
def pollStep (hse : Encoder) (oi : OutputInfo) :
    Checked (Option PollRes × Encoder × OutputInfo) :=
  match hse.state with
  | .notFull => .ok (some .empty, hse, oi)
  | .filled => do
      let hse ← doIndexing hse
      .ok (none, { hse with state := .search }, oi)
  | .search => do
      let (state, hse) ← stStepSearch hse
      .ok (none, { hse with state := state }, oi)
  | .yieldTagBit => do
      let (state, hse, oi) ← stYieldTagBit hse oi
      .ok (none, { hse with state := state }, oi)
  | .yieldLiteral => do
      let (state, hse, oi) ← stYieldLiteral hse oi
      .ok (none, { hse with state := state }, oi)
  | .yieldBrIndex => do
      let (state, hse, oi) ← stYieldBrIndex hse oi
      .ok (none, { hse with state := state }, oi)
  | .yieldBrLength => do
      let (state, hse, oi) ← stYieldBrLength hse oi
      .ok (none, { hse with state := state }, oi)
  | .saveBacklog => do
      let (state, hse) ← stSaveBacklog hse
      .ok (none, { hse with state := state }, oi)
  | .flushBits => do
      let (state, hse, oi) ← stFlushBitBuffer hse oi
      .ok (some .empty, { hse with state := state }, oi)
  | .done => .ok (some .empty, hse, oi)

/-- `while (1)`: an unchanged state with a full output buffer asks for more room. -/
def pollLoop : Nat → Encoder → OutputInfo → Checked (PollRes × Encoder × OutputInfo)
  | 0, _, _ => .error .outOfFuel
  | fuel + 1, hse, oi => do
      let inState := hse.state
      let (res, hse, oi) ← pollStep hse oi
      match res with
      | some res => .ok (res, hse, oi)
      | none =>
          if hse.state = inState ∧ oi.outputSize = oi.bufSize then .ok (.more, hse, oi)
          else pollLoop fuel hse oi

/-- Rounds of the poll loop that suffice for one window of input. -/
def pollFuel (hse : Encoder) : Nat := 4 * (hse.inputSize + 4)

/-- The bytes are those written from `out_buf` on; without them `*output_size`
is left as it was. -/
def heatshrinkEncoderPoll (hse : Encoder) (outBufSize : Nat) :
    Checked (PollRes × Encoder × Option (List UInt8)) :=
  if outBufSize = 0 then .ok (.errorMisuse, hse, none)
  else do
    let (res, hse, oi) ← pollLoop (pollFuel hse) hse { buf := [], bufSize := outBufSize }
    .ok (res, hse, some oi.buf)

end ThingyAccel.HeatshrinkEncoder
