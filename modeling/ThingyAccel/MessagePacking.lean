import ThingyAccel.MessageSize

/-!
The `while` loop of `empty_fifo_fn` is next-fit packing of triples into messages,
and every message that is closed goes to the next slot of the current bank.
-/
namespace ThingyAccel.MessagePacking

open Memory HeatshrinkCompression Messages EmptyFifo NextFit MessageSize

/-- The globals that a stored message changes. -/
structure Slots where
  collectedAccel : Nat
  sendFlag : Bool
  msgIndex : Nat
  message : List (List MessagePayload)
  deriving DecidableEq, Repr

def slots (st : Sampler) : Slots := ⟨st.collectedAccel, st.sendFlag, st.msgIndex, st.message⟩

def Slots.slotAt (state : Slots) (bank index : Nat) : Option MessagePayload :=
  state.message[bank]?.bind fun slots => slots[index]?

/-- A stored message; the last slot of a bank turns to the other bank and raises
the flag. -/
def Slots.store (state : Slots) (slot : MessagePayload) : Slots :=
  let full := state.collectedAccel + 1 = payloadCount
  { collectedAccel := if full then 0 else state.collectedAccel + 1
    sendFlag := if full then true else state.sendFlag
    msgIndex := if full then (if state.msgIndex = 1 then 0 else 1) else state.msgIndex
    message := state.message.set state.msgIndex
      ((state.message.getD state.msgIndex []).set state.collectedAccel slot) }

structure Layout (state : Slots) : Prop where
  bank : state.msgIndex < 2
  index : state.collectedAccel < payloadCount
  banks : state.message.length = 2
  slots : ∀ bank ∈ state.message, bank.length = payloadCount
  payloads : ∀ bank ∈ state.message, ∀ slot ∈ bank, slot.payload.length = 1100

section Slots

variable {state : Slots}

theorem layout_present (layout : Layout state) {bank index : Nat} (inside : bank < 2)
    (below : index < payloadCount) :
    ∃ slots slot, state.message[bank]? = some slots ∧ slots[index]? = some slot ∧
      slots.length = payloadCount ∧ slot.payload.length = 1100 := by
  have present : bank < state.message.length := by
    rw [layout.banks]
    exact inside
  have member := List.getElem_mem present
  have long := layout.slots _ member
  have found : index < state.message[bank].length := by
    rw [long]
    exact below
  exact ⟨_, _, List.getElem?_eq_getElem present, List.getElem?_eq_getElem found, long,
    layout.payloads _ member _ (List.getElem_mem found)⟩

theorem layout_store (layout : Layout state) {slot : MessagePayload}
    (payload : slot.payload.length = 1100) : Layout (state.store slot) := by
  obtain ⟨slots, old, here, -, long, -⟩ := layout_present layout layout.bank layout.index
  have current : state.message.getD state.msgIndex [] = slots := by
    rw [List.getD_eq_getElem?_getD, here]
    rfl
  have inside : slots ∈ state.message := List.mem_of_getElem? here
  have index := layout.index
  constructor
  · simp only [Slots.store]
    split
    · split <;> decide
    · exact layout.bank
  · by_cases full : state.collectedAccel + 1 = payloadCount
    · simp only [Slots.store, full, ↓reduceIte]
      decide
    · simp only [Slots.store, full, ↓reduceIte]
      exact Nat.lt_of_le_of_ne index full
  · simp only [Slots.store, List.length_set]
    exact layout.banks
  · intro bank member
    simp only [Slots.store, current] at member
    rcases List.mem_or_eq_of_mem_set member with old | rfl
    · exact layout.slots bank old
    · rw [List.length_set]
      exact long
  · intro bank member other content
    simp only [Slots.store, current] at member
    rcases List.mem_or_eq_of_mem_set member with old | rfl
    · exact layout.payloads bank old other content
    · rcases List.mem_or_eq_of_mem_set content with old | rfl
      · exact layout.payloads slots inside other old
      · exact payload

theorem slot_at_store (layout : Layout state) (slot : MessagePayload) (bank index : Nat) :
    (state.store slot).slotAt bank index =
      if bank = state.msgIndex ∧ index = state.collectedAccel then some slot
      else state.slotAt bank index := by
  obtain ⟨slots, old, here, -, long, -⟩ := layout_present layout layout.bank layout.index
  have current : state.message.getD state.msgIndex [] = slots := by
    rw [List.getD_eq_getElem?_getD, here]
    rfl
  have within := layout.bank
  have below := layout.index
  simp only [Slots.slotAt, Slots.store, current]
  by_cases same : bank = state.msgIndex
  · subst same
    rw [List.getElem?_set_self (by rw [layout.banks]; exact within), here]
    by_cases exact' : index = state.collectedAccel
    · subst exact'
      simp only [Option.bind_some, and_self, ↓reduceIte]
      exact List.getElem?_set_self (by rw [long]; exact below)
    · simp only [Option.bind_some, true_and, exact', ↓reduceIte]
      exact List.getElem?_set_ne fun equal => exact' equal.symm
  · simp only [same, false_and, ↓reduceIte]
    rw [List.getElem?_set_ne fun equal => same equal.symm]

end Slots

section Flush

variable (cborEncodeMsg : Msg → Option (List UInt8))

inductive FlushStep (state : Slots) (flush : Flush) : Slots → Prop where
  | failed (fails : cborEncodeMsg flush.message = none) (lost : flush.stored = none) :
      FlushStep state flush state
  | stored {bytes : List UInt8} {memory : Bool × Bool} {old slot : MessagePayload}
      (encodes : cborEncodeMsg flush.message = some bytes)
      (previous : state.slotAt state.msgIndex state.collectedAccel = some old)
      (stores : storeMessage memory bytes old = .ok slot) (payload : slot.payload.length = 1100)
      (kept : flush.stored = some ⟨state.msgIndex, state.collectedAccel, slot⟩) :
      FlushStep state flush (state.store slot)

inductive FlushRun : Slots → List Flush → Slots → Prop where
  | done (state : Slots) : FlushRun state [] state
  | step {state next last : Slots} {flush : Flush} {flushes : List Flush}
      (first : FlushStep cborEncodeMsg state flush next) (rest : FlushRun next flushes last) :
      FlushRun state (flush :: flushes) last

theorem flush_step_layout {cborEncodeMsg : Msg → Option (List UInt8)} {state next : Slots}
    {flush : Flush} (layout : Layout state) (step : FlushStep cborEncodeMsg state flush next) :
    Layout next := by
  cases step with
  | failed _ _ => exact layout
  | stored _ _ _ payload _ => exact layout_store layout payload

/-- A message in the making whose triples and size are those of a bin. -/
structure Fills (bin : MessageBin) (run : Filling) : Prop where
  storage : run.sampler.encodeMsgBuf.msgXyz.length = 256
  label : metadata run.sampler.encodeMsgBuf = bin.label
  index : run.encodeIndex = bin.items.length
  front : run.sampler.encodeMsgBuf.msgXyz.take bin.items.length = bin.items
  size : run.sampler.encodeMsgBuf.size = bin.bytes

theorem store_message_exact (memory : Bool × Bool) {temporary : List UInt8}
    {slot : MessagePayload} (positive : 1 ≤ temporary.length) (small : temporary.length ≤ 1100)
    (payload : slot.payload.length = 1100) :
    ∃ stored, storeMessage memory temporary slot = .ok stored ∧
      stored.payload.length = 1100 := by
  have short : temporary.length ≤ 1200 := Nat.le_trans small (by decide)
  have room : temporary.length ≤ slot.payload.length := by
    rw [payload]
    exact small
  obtain ⟨returned, out, computed, kept⟩ :=
    compression_kept memory.1 memory.2 slot.payload positive short room
  have inside : ¬ slot.payload.length < out.length := by
    rw [kept]
    exact Nat.lt_irrefl _
  by_cases compressed : 0 < returned
  · refine ⟨⟨returned, out⟩, ?_, kept.trans payload⟩
    rw [storeMessage, computed, checked_bind]
    simp only [inside, compressed, ↓reduceIte]
  · have fits : 0 + temporary.length ≤ out.length := by
      rw [Nat.zero_add, kept]
      exact room
    refine ⟨⟨temporary.length % 2 ^ 16, _⟩, ?_, (written_length fits).trans (kept.trans payload)⟩
    rw [storeMessage, computed, checked_bind]
    simp only [inside, compressed, ↓reduceIte, write_at_inside fits, checked_bind]

variable {cborEncodeMsg} {bin : MessageBin} {run : Filling}

theorem fills_holds (fills : Fills bin run) :
    Holds { run.sampler.encodeMsgBuf with msgXyzCount := run.encodeIndex } bin :=
  ⟨fills.label, by rw [Msg.triples, fills.index]; exact fills.front, fills.index, fills.size⟩

theorem restarted_size : restartedMsg.size = 7 := by decide

theorem fills_restarted {st : Sampler} {flushes : List Flush} (cleared : st.encodeMsgBuf = restartedMsg) :
    Fills ⟨Metadata.cleared, []⟩ ⟨st, 0, flushes⟩ := by
  constructor
  · rw [cleared]
    exact cleared_length
  · rw [cleared]
    rfl
  · rfl
  · rfl
  · rw [cleared]
    exact restarted_size

theorem flush_message_exact (canonical : CanonicalEncoder cborEncodeMsg)
    (memory : Nat → Bool × Bool) (fills : Fills bin run) (bounded : Bounded bin.items)
    (least : 23 ≤ bin.items.length) (layout : Layout (slots run.sampler)) :
    ∃ next flush, flushMessage cborEncodeMsg memory run = .ok next ∧
      next.flushes = run.flushes ++ [flush] ∧ Holds flush.message bin ∧
      Fills ⟨Metadata.cleared, []⟩ next ∧
      FlushStep cborEncodeMsg (slots run.sampler) flush (slots next.sampler) ∧
      Layout (slots next.sampler) := by
  have holds := fills_holds fills
  obtain ⟨buf, message⟩ :
      ∃ buf, { run.sampler.encodeMsgBuf with msgXyzCount := run.encodeIndex } = buf := ⟨_, rfl⟩
  rw [message] at holds
  cases encodes : cborEncodeMsg buf with
  | none =>
      refine ⟨⟨{ run.sampler with encodeMsgBuf := restartedMsg }, 0, run.flushes ++ [⟨buf, none⟩]⟩,
        ⟨buf, none⟩, ?_, rfl, holds, fills_restarted rfl, .failed encodes rfl, layout⟩
      rw [flushMessage]
      simp only [message, encodes]
  | some bytes =>
      have size : bytes.length = bin.bytes := by
        rw [canonical buf bytes encodes]
        exact canonical_length holds least (bounded_count bounded)
      have small := bounded_bytes bounded
      have tare := (metadata_bytes_range bin.label).1
      have positive : 1 ≤ bytes.length := by
        rw [size, MessageBin.bytes, Bin.weight]
        omega
      obtain ⟨bank, old, bankThere, slotThere, long, payload⟩ :=
        layout_present layout layout.bank layout.index
      have here : run.sampler.message[run.sampler.msgIndex]? = some bank := bankThere
      have found : bank[run.sampler.collectedAccel]? = some old := slotThere
      obtain ⟨slot, stores, stored⟩ := store_message_exact
        (memory run.flushes.length) positive (by omega) payload
      have current : run.sampler.message.getD run.sampler.msgIndex [] = bank := by
        rw [List.getD_eq_getElem?_getD, here]
        rfl
      have bankBelow : run.sampler.msgIndex < run.sampler.message.length := by
        have banks := layout.banks
        simp only [slots] at banks
        rw [banks]
        exact layout.bank
      have slotBelow : run.sampler.collectedAccel < bank.length := by
        rw [long]
        exact layout.index
      -- The counter stays below the 16-bit limit.
      have wraps : (run.sampler.collectedAccel + 1) % 2 ^ 16 = run.sampler.collectedAccel + 1 := by
        have index := layout.index
        simp only [slots, payloadCount] at index
        exact Nat.mod_eq_of_lt (by omega)
      refine ⟨{
          sampler := {
            collectedAccel := ((slots run.sampler).store slot).collectedAccel
            encodeMsgBuf := restartedMsg
            sendFlag := ((slots run.sampler).store slot).sendFlag
            msgIndex := ((slots run.sampler).store slot).msgIndex
            message := ((slots run.sampler).store slot).message }
          encodeIndex := 0
          flushes := run.flushes ++
            [⟨buf, some ⟨run.sampler.msgIndex, run.sampler.collectedAccel, slot⟩⟩] },
        ⟨buf, some ⟨run.sampler.msgIndex, run.sampler.collectedAccel, slot⟩⟩, ?_, rfl, holds,
        fills_restarted rfl, ?_, layout_store layout stored⟩
      · rw [flushMessage]
        simp only [message, encodes]
        rw [read_at_some here, checked_bind, read_at_some found, checked_bind, stores, checked_bind,
          write_at_single slotBelow, checked_bind, write_at_single bankBelow, checked_bind, wraps]
        simp only [Slots.store, slots, current]
        rfl
      · exact .stored encodes (by rw [Slots.slotAt, bankThere]; exact slotThere) stores stored rfl

def xyzOf (x y z : Int16) : MsgXyz := ⟨x.toInt32, y.toInt32, z.toInt32⟩

theorem xyz_of_narrow (x y z : Int16) : NarrowXyz (xyzOf x y z) := by
  have inside (value : Int16) : InInt16 value.toInt32 := by
    rw [InInt16, Int16.toInt_toInt32]
    exact ⟨value.le_toInt, value.toInt_lt⟩
  exact ⟨inside x, inside y, inside z⟩

theorem xyz_of_bytes (x y z : Int16) :
    (cborBitWidth x.toInt + cborBitWidth y.toInt + cborBitWidth z.toInt) % 2 ^ 8 + arrayByte =
      xyzBytes (xyzOf x y z) := by
  have narrow := narrow_xyz_bytes (xyz_of_narrow x y z)
  simp only [xyzBytes, xyzOf, Int16.toInt_toInt32] at narrow ⊢
  rw [Nat.mod_eq_of_lt (by omega)]

theorem append_xyz_exact (x y z : Int16) (fills : Fills bin run) (bounded : Bounded bin.items) :
    ∃ next, appendXyz ((cborBitWidth x.toInt + cborBitWidth y.toInt + cborBitWidth z.toInt) % 2 ^ 8)
        x y z run = .ok next ∧ next.flushes = run.flushes ∧
      Fills ⟨bin.label, bin.items ++ [xyzOf x y z]⟩ next ∧
      slots next.sampler = slots run.sampler := by
  have count := bounded_count bounded
  have inside : run.encodeIndex < run.sampler.encodeMsgBuf.msgXyz.length := by
    rw [fills.storage, fills.index]
    omega
  have light := bounded_bytes bounded
  have short := narrow_xyz_bytes (xyz_of_narrow x y z)
  have size : (run.sampler.encodeMsgBuf.size +
      (cborBitWidth x.toInt + cborBitWidth y.toInt + cborBitWidth z.toInt) % 2 ^ 8 + arrayByte) %
        2 ^ 16 = bin.bytes + xyzBytes (xyzOf x y z) := by
    rw [Nat.add_assoc, xyz_of_bytes, fills.size]
    exact Nat.mod_eq_of_lt (by omega)
  have weight : bin.bytes + xyzBytes (xyzOf x y z) =
      MessageBin.bytes ⟨bin.label, bin.items ++ [xyzOf x y z]⟩ := by
    simp [MessageBin.bytes, Bin.weight, Nat.add_assoc]
  have front : (run.sampler.encodeMsgBuf.msgXyz.set run.encodeIndex (xyzOf x y z)).take
      (bin.items ++ [xyzOf x y z]).length = bin.items ++ [xyzOf x y z] := by
    rw [List.length_append, List.length_singleton, List.take_add_one, List.take_set_of_le
      (Nat.le_of_eq fills.index.symm), fills.front, ← fills.index, List.getElem?_set_self inside]
    rfl
  refine ⟨{ run with
    sampler := { run.sampler with
      encodeMsgBuf := { run.sampler.encodeMsgBuf with
        msgXyz := run.sampler.encodeMsgBuf.msgXyz.set run.encodeIndex (xyzOf x y z)
        size := bin.bytes + xyzBytes (xyzOf x y z) } }
    encodeIndex := run.encodeIndex + 1 }, ?_, rfl,
    ⟨List.length_set.trans fills.storage, fills.label, ?_, front, weight⟩, rfl⟩
  · rw [appendXyz]
    simp only [write_at_single inside, checked_bind, size]
    rfl
  · simp [fills.index]

/-- The samples in groups of three; a rest of one or two is dropped. -/
def triplesOf : List Int16 → List MsgXyz
  | x :: y :: z :: rest => xyzOf x y z :: triplesOf rest
  | _ => []

def packed (bin : MessageBin) (accel : List Int16) : List MessageBin × MessageBin :=
  pack Metadata.bytes xyzBytes payloadSize Metadata.cleared bin (triplesOf accel)

theorem bounded_single (x y z : Int16) : Bounded [xyzOf x y z] := by
  have short := narrow_xyz_bytes (xyz_of_narrow x y z)
  constructor
  · rw [load_singleton]
    omega
  · intro xyz member
    rw [List.mem_singleton.mp member]
    exact xyz_of_narrow x y z

theorem bounded_append (bounded : Bounded bin.items) (x y z : Int16)
    (room : ¬ payloadSize < bin.bytes + xyzBytes (xyzOf x y z)) :
    Bounded (bin.items ++ [xyzOf x y z]) := by
  have tare := (metadata_bytes_range bin.label).1
  constructor
  · rw [load_append, load_singleton]
    simp only [MessageBin.bytes, Bin.weight, payloadSize] at room
    omega
  · intro xyz member
    rcases List.mem_append.mp member with old | new
    · exact bounded.narrow xyz old
    · rw [List.mem_singleton.mp new]
      exact xyz_of_narrow x y z

/-- The loop packs the samples: it hands over a message for each bin that is
closed and leaves the open one in the buffer. -/
theorem encode_loop_exact (canonical : CanonicalEncoder cborEncodeMsg) (memory : Nat → Bool × Bool)
    (accel : List Int16) (whole : 3 ∣ accel.length) (bin : MessageBin) (run : Filling)
    (fills : Fills bin run) (bounded : Bounded bin.items) (layout : Layout (slots run.sampler)) :
    ∃ next flushed, encodeLoop cborEncodeMsg memory accel run = .ok next ∧
      next.flushes = run.flushes ++ flushed ∧
      List.Forall₂ (fun flush closed => Holds flush.message closed) flushed (packed bin accel).1 ∧
      Fills (packed bin accel).2 next ∧ Bounded (packed bin accel).2.items ∧
      (∀ closed ∈ (packed bin accel).1, Bounded closed.items ∧ 99 ≤ closed.items.length) ∧
      FlushRun cborEncodeMsg (slots run.sampler) flushed (slots next.sampler) ∧
      Layout (slots next.sampler) := by
  induction accel using triplesOf.induct generalizing bin run with
  | case1 x y z rest ih =>
      have later : 3 ∣ rest.length := by
        simp only [List.length_cons] at whole
        omega
      have check : run.sampler.encodeMsgBuf.size +
          (cborBitWidth x.toInt + cborBitWidth y.toInt + cborBitWidth z.toInt) % 2 ^ 8 + arrayByte =
            bin.bytes + xyzBytes (xyzOf x y z) := by
        rw [Nat.add_assoc, xyz_of_bytes, fills.size]
      -- The check of the code is the overflow test of the packing.
      by_cases full : payloadSize < bin.bytes + xyzBytes (xyzOf x y z)
      · have least := full_count bounded (xyz_of_narrow x y z) full
        obtain ⟨middle, flush, flushes, recorded, holds, empty, step, layout'⟩ :=
          flush_message_exact canonical memory fills bounded (by omega) layout
        have light : Bounded [] :=
          ⟨Nat.zero_le _, fun xyz member => absurd member List.not_mem_nil⟩
        obtain ⟨next, appends, same, filled, kept⟩ := append_xyz_exact x y z empty light
        rw [← kept] at layout' step
        obtain ⟨last, flushed, loops, log, held, open', light', closed', rest', layout''⟩ :=
          ih later ⟨Metadata.cleared, [xyzOf x y z]⟩ next filled (bounded_single x y z) layout'
        have closes : packed bin (x :: y :: z :: rest) =
            (bin :: (packed ⟨Metadata.cleared, [xyzOf x y z]⟩ rest).1,
              (packed ⟨Metadata.cleared, [xyzOf x y z]⟩ rest).2) := pack_overflow full
        rw [closes]
        refine ⟨last, flush :: flushed, ?_, ?_, .cons holds held, open', light', ?_,
          .step step rest', layout''⟩
        · simp only [encodeLoop, check, full, ↓reduceIte, flushes, checked_bind, appends]
          exact loops
        · rw [log, same, recorded, List.append_assoc]
          rfl
        · intro closed member
          rcases List.mem_cons.mp member with rfl | member
          · exact ⟨bounded, least⟩
          · exact closed' closed member
      · obtain ⟨next, appends, same, filled, kept⟩ := append_xyz_exact x y z fills bounded
        rw [← kept] at layout
        have continues : packed bin (x :: y :: z :: rest) =
            packed ⟨bin.label, bin.items ++ [xyzOf x y z]⟩ rest := pack_room full
        obtain ⟨last, flushed, loops, log, held, open', light', closed', rest', layout'⟩ :=
          ih later ⟨bin.label, bin.items ++ [xyzOf x y z]⟩ next filled
            (bounded_append bounded x y z full) layout
        rw [continues]
        refine ⟨last, flushed, ?_, by rw [log, same], held, open', light', closed', ?_, layout'⟩
        · simp only [encodeLoop, check, full, ↓reduceIte, checked_bind, appends]
          exact loops
        · rw [← kept]
          exact rest'
  | case2 accel short =>
      cases accel with
      | nil =>
          refine ⟨run, [], rfl, (List.append_nil _).symm, .nil, fills, bounded, ?_, .done _, layout⟩
          intro closed member
          exact absurd member List.not_mem_nil
      | cons x accel =>
          cases accel with
          | nil => exact absurd whole (by simp)
          | cons y accel =>
              cases accel with
              | nil => exact absurd whole (by simp)
              | cons z rest => exact (short x y z rest rfl).elim

/-- The buffer between two calls: the open triples, without the metadata. -/
structure Ready (items : List MsgXyz) (st : Sampler) : Prop where
  storage : st.encodeMsgBuf.msgXyz.length = 256
  count : st.encodeMsgBuf.msgXyzCount = items.length
  front : st.encodeMsgBuf.triples = items
  size : st.encodeMsgBuf.size = load xyzBytes items
  bounded : Bounded items

def callLabel (call : Call) (st : Sampler) : Metadata :=
  metadata (startMessage call st.encodeMsgBuf)

def opening (call : Call) (st : Sampler) : MessageBin :=
  ⟨callLabel call st, st.encodeMsgBuf.triples⟩

/-- The messages that a call closes and the one that it leaves open. -/
def callPacking (call : Call) (st : Sampler) : List MessageBin × MessageBin :=
  packed (opening call st) call.fifoGet.2.values

def Succeeds (call : Call) : Prop := ¬ call.sampleFetch < 0 ∧ ¬ call.fifoGet.1 < 0

instance (call : Call) : Decidable (Succeeds call) := inferInstanceAs (Decidable (_ ∧ _))

variable {items : List MsgXyz} {st : Sampler} {call : Call}

theorem start_fills (ready : Ready items st) (call : Call) :
    Fills (opening call st)
      ⟨{ st with encodeMsgBuf := startMessage call st.encodeMsgBuf },
        (startMessage call st.encodeMsgBuf).msgXyzCount, []⟩ := by
  have light := ready.bounded.light
  have tare := (metadata_bytes_range (callLabel call st)).2
  have size : (startMessage call st.encodeMsgBuf).size =
      (st.encodeMsgBuf.size + (callLabel call st).bytes) % 2 ^ 16 := rfl
  have long : st.encodeMsgBuf.triples.length = st.encodeMsgBuf.msgXyzCount := by
    rw [ready.front, ready.count]
  refine ⟨ready.storage, rfl, long.symm, ?_, ?_⟩
  · rw [opening, long]
    rfl
  · rw [size, ready.size, MessageBin.bytes, Bin.weight, opening, ready.front,
      Nat.mod_eq_of_lt (by omega), Nat.add_comm]

theorem leave_ready {bin : MessageBin} {run : Filling} (fills : Fills bin run)
    (bounded : Bounded bin.items) :
    Ready bin.items { run.sampler with
      encodeMsgBuf := leaveMessage call run.encodeIndex run.sampler.encodeMsgBuf } := by
  have light := bounded_bytes bounded
  have label := congrArg Metadata.bytes fills.label
  refine ⟨fills.storage, fills.index, ?_, ?_, bounded⟩
  · rw [Msg.triples, leaveMessage, fills.index]
    exact fills.front
  · have size : (leaveMessage call run.encodeIndex run.sampler.encodeMsgBuf).size =
        (run.sampler.encodeMsgBuf.size + 2 ^ 16 - (metadata run.sampler.encodeMsgBuf).bytes) %
          2 ^ 16 := rfl
    have total : bin.bytes + 2 ^ 16 - bin.label.bytes = load xyzBytes bin.items + 2 ^ 16 := by
      simp only [MessageBin.bytes, Bin.weight]
      omega
    rw [size, label, fills.size, total, Nat.add_mod_right]
    exact Nat.mod_eq_of_lt (Nat.lt_of_le_of_lt bounded.light (by decide))

theorem failed_call (fails : ¬ Succeeds call) : emptyFifoFn cborEncodeMsg call st = .ok ⟨st, [], false⟩ := by
  rw [emptyFifoFn]
  split
  · rfl
  · split
    · rfl
    · exact absurd ⟨‹_›, ‹_›⟩ fails

/-- A successful call packs its samples behind the open triples. -/
theorem call_exact (canonical : CanonicalEncoder cborEncodeMsg) (succeeds : Succeeds call)
    (ready : Ready items st) (layout : Layout (slots st)) :
    ∃ served, emptyFifoFn cborEncodeMsg call st = .ok served ∧
      List.Forall₂ (fun flush closed => Holds flush.message closed) served.flushes
        (callPacking call st).1 ∧
      Ready (callPacking call st).2.items served.sampler ∧
      (∀ closed ∈ (callPacking call st).1, Bounded closed.items ∧ 99 ≤ closed.items.length) ∧
      FlushRun cborEncodeMsg (slots st) served.flushes (slots served.sampler) ∧
      Layout (slots served.sampler) ∧ served.sampler.encodeMsgBuf.msgTphgTimestamp = call.uptime ∧
      served.submitted = served.sampler.sendFlag := by
  have whole : 3 ∣ call.fifoGet.2.values.length := by
    rw [call.fifoGet.2.count]
    decide
  have fills := start_fills ready call
  have bounded : Bounded (opening call st).items := by
    rw [opening, ready.front]
    exact ready.bounded
  obtain ⟨run, flushed, loops, log, held, open', light, closed, stores, layout'⟩ :=
    encode_loop_exact canonical call.memory call.fifoGet.2.values whole _ _ fills bounded layout
  refine ⟨⟨{ run.sampler with
      encodeMsgBuf := leaveMessage call run.encodeIndex run.sampler.encodeMsgBuf }, flushed,
      run.sampler.sendFlag⟩, ?_, held, leave_ready open' light, closed, stores, layout', rfl, rfl⟩
  rw [emptyFifoFn, if_neg succeeds.1, if_neg succeeds.2]
  simp only [loops, checked_bind, log, List.nil_append]

end Flush

end ThingyAccel.MessagePacking
