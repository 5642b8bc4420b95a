import ThingyAccel.CoapFormats
import ThingyAccel.Uplink

/-!
The bytes that `client_get_send` of src/src/networking.c hands to the socket for the
packets of `Uplink`. The CoAP library that builds them is a parameter.
-/
namespace ThingyAccel.CoapPackets

open Messages EmptyFifo MessagePacking SampleConservation CoapFormats CoapSend Executions
  MessageReading SlotReading Uplink

def coapMsgMaxLen : Nat := 1280

def appCoapVersion : Nat := 1

def coapTypeCon : Nat := 0

def coapTypeNonCon : Nat := 1

def coapMethodPost : Nat := 2

def coapOptionUriPath : Nat := 11

/-- The calls that build a packet, with what they return and the packet behind them, and of
a packet its bytes, the room it was given and the number of its last option. -/
structure CoapLibrary (Packet : Type) where
  packetInit (maxLen ver type : Nat) (token : List UInt8) (code id : Nat) : Int × Packet
  packetAppendOption (request : Packet) (code : Nat) (value : List UInt8) : Int × Packet
  packetAppendPayloadMarker (request : Packet) : Int × Packet
  packetAppendPayload (request : Packet) (payload : List UInt8) : Int × Packet
  data : Packet → List UInt8
  maxLen : Packet → Nat
  delta : Packet → Nat

section Library

variable {Packet : Type} (lib : CoapLibrary Packet)

def Appends (call : Int × Packet) (request : Packet) (bytes : List UInt8) : Prop :=
  ∃ next, call = (0, next) ∧ lib.data next = lib.data request ++ bytes ∧
    lib.maxLen next = lib.maxLen request

def Room (request : Packet) (bytes : List UInt8) : Prop :=
  (lib.data request).length + bytes.length ≤ lib.maxLen request

/-- What fits into the room is appended in the format of CoAP; a payload that does not fit
is refused. -/
structure Documented : Prop where
  init : ∀ maxLen type token code id, token.length ≤ 8 → 4 + token.length ≤ maxLen →
    ∃ request, lib.packetInit maxLen appCoapVersion type token code id = (0, request) ∧
      lib.data request = header type code id token.length ++ token ∧
      lib.maxLen request = maxLen ∧ lib.delta request = 0
  option : ∀ request code value, lib.delta request ≤ code →
    Room lib request (optionFormat.write ⟨code - lib.delta request, value⟩) →
      Appends lib (lib.packetAppendOption request code value) request
        (optionFormat.write ⟨code - lib.delta request, value⟩)
  marker : ∀ request, Room lib request [0xFF] →
    Appends lib (lib.packetAppendPayloadMarker request) request [0xFF]
  payload : ∀ request payload, payload ≠ [] → Room lib request payload →
    Appends lib (lib.packetAppendPayload request payload) request payload
  refused : ∀ request payload, ¬ Room lib request payload →
    (lib.packetAppendPayload request payload).1 < 0

structure Sending where
  err : Int
  conToken : Nat
  sent : Option (List UInt8)
  deriving DecidableEq, Repr

/-- `socket` is what `send` returns for a datagram, and `errno` behind it; `payload` is the
memory behind the pointer; `msgType` is true for a message that is not to be confirmed. -/
def clientGetSend (resource : List UInt8) (nextId : Nat) (socket : List UInt8 → Int × Int)
    (payload : Nat → UInt8) (payloadSize : Nat) (msgType : Bool) (token conToken : Nat) : Sending :=
  let conToken := if msgType = false then token else conToken
  let (err, request) := lib.packetInit coapMsgMaxLen appCoapVersion
    (if msgType then coapTypeNonCon else coapTypeCon) (tokenBytes token) coapMethodPost nextId
  if err < 0 then ⟨err, conToken, none⟩
  else
    let (err, request) := lib.packetAppendOption request coapOptionUriPath resource
    if err < 0 then ⟨err, conToken, none⟩
    else
      let (err, request) := lib.packetAppendPayloadMarker request
      if err < 0 then ⟨err, conToken, none⟩
      else
        let (err, request) :=
          lib.packetAppendPayload request ((List.range payloadSize).map payload)
        if err < 0 then ⟨err, conToken, none⟩
        else
          let (err, errno) := socket (lib.data request)
          if err < 0 then ⟨-errno, conToken, some (lib.data request)⟩
          else ⟨0, conToken, some (lib.data request)⟩

end Library

section Building

variable {Packet : Type} {lib : CoapLibrary Packet} {resource payload : List UInt8}

def coapRequest (resource : List UInt8) (type id token : Nat) (payload : List UInt8) : CoapMessage where
  type := type
  code := coapMethodPost
  id := id
  token := tokenBytes token
  options := [⟨coapOptionUriPath, resource⟩]
  payload := payload

theorem token_length (token : Nat) : (tokenBytes token).length = 2 := rfl

theorem resource_length (short : resource.length ≤ 160) :
    (optionFormat.write ⟨coapOptionUriPath, resource⟩).length ≤ resource.length + 2 := by
  show (CoapOption.write ⟨coapOptionUriPath, resource⟩).length ≤ resource.length + 2
  have delta : extension coapOptionUriPath = [] := rfl
  simp only [CoapOption.write, delta, List.length_cons, List.length_append, List.length_nil]
  rw [extension]
  split
  · rw [List.length_nil]
    omega
  · rw [if_pos (by omega), List.length_singleton]
    omega

theorem request_length {type id token : Nat} (present : payload ≠ []) :
    (writeMessage (coapRequest resource type id token payload)).length =
      7 + (optionFormat.write ⟨coapOptionUriPath, resource⟩).length + payload.length := by
  simp only [writeMessage, coapRequest, writeBody, present, ↓reduceIte, List.flatMap_cons,
    List.flatMap_nil, List.append_nil, List.length_append, List.length_cons]
  have front : (header type coapMethodPost id (tokenBytes token).length).length = 4 := rfl
  have value : (tokenBytes token).length = 2 := rfl
  omega

/-- The request is built when `coap_buf` has room for all of it, and then only the socket
can fail; otherwise the payload is refused and nothing is sent. -/
theorem client_get_send_exact (documented : Documented lib) (short : resource.length ≤ 160)
    (memory : Nat → UInt8) {payloadSize : Nat} (present : 0 < payloadSize) (nextId : Nat)
    (socket : List UInt8 → Int × Int) (msgType : Bool) (token conToken : Nat) :
    let datagram := writeMessage (coapRequest resource (if msgType then coapTypeNonCon else coapTypeCon)
      nextId token ((List.range payloadSize).map memory))
    let sending :=
      clientGetSend lib resource nextId socket memory payloadSize msgType token conToken
    (datagram.length ≤ coapMsgMaxLen → sending =
      ⟨if (socket datagram).1 < 0 then -(socket datagram).2 else 0,
        if msgType = false then token else conToken, some datagram⟩) ∧
      (coapMsgMaxLen < datagram.length → sending.err < 0 ∧ sending =
        ⟨sending.err, if msgType = false then token else conToken, none⟩) := by
  intro datagram sending
  obtain ⟨bytes, behind⟩ : ∃ bytes, (List.range payloadSize).map memory = bytes := ⟨_, rfl⟩
  have filled : bytes ≠ [] := by
    intro empty
    have length := congrArg List.length behind
    rw [empty, List.length_map, List.length_range, List.length_nil] at length
    omega
  have path := resource_length short
  obtain ⟨request, inits, data, room, delta⟩ := documented.init coapMsgMaxLen
    (if msgType then coapTypeNonCon else coapTypeCon) (tokenBytes token) coapMethodPost nextId
    (by rw [token_length]; decide) (by rw [token_length]; decide)
  have long : (lib.data request).length = 6 := by
    rw [data]
    rfl
  obtain ⟨second, options, data', room'⟩ := documented.option request coapOptionUriPath resource
    (by rw [delta]; exact Nat.zero_le _)
    (by rw [Room, long, room, delta, Nat.sub_zero]; simp only [coapMsgMaxLen]; omega)
  rw [delta, Nat.sub_zero] at data'
  have long' : (lib.data second).length =
      6 + (optionFormat.write ⟨coapOptionUriPath, resource⟩).length := by
    rw [data', List.length_append, long]
  obtain ⟨third, marks, data'', room''⟩ := documented.marker second
    (by rw [Room, long', room', room]; simp only [coapMsgMaxLen, List.length_singleton]; omega)
  have spelled : lib.data third ++ bytes = datagram := by
    rw [data'', data', data]
    simp only [datagram, writeMessage, coapRequest, writeBody, behind, filled, ↓reduceIte,
      List.flatMap_cons, List.flatMap_nil, List.append_nil, List.append_assoc, List.cons_append,
      List.nil_append]
  have fits : Room lib third bytes ↔ datagram.length ≤ coapMsgMaxLen := by
    rw [Room, room'', room', room, ← spelled, List.length_append]
  constructor
  · intro inside
    obtain ⟨last, fills, whole, -⟩ := documented.payload third bytes filled (fits.mpr inside)
    rw [spelled] at whole
    simp only [sending, clientGetSend, inits, options, marks, behind, fills, whole, Int.lt_irrefl,
      ↓reduceIte]
    split <;> rfl
  · intro outside
    have refused := documented.refused third bytes fun inside =>
      absurd (fits.mp inside) (Nat.not_le_of_lt outside)
    have fails : sending = ⟨(lib.packetAppendPayload third bytes).1,
        if msgType = false then token else conToken, none⟩ := by
      simp only [sending, clientGetSend, inits, options, marks, behind, refused, Int.lt_irrefl,
        ↓reduceIte]
    rw [fails]
    exact ⟨refused, rfl⟩

theorem request_admitted {type id token : Nat} (kind : type < 4) (small : id < 65536)
    (short : resource.length ≤ 160) : Admitted (coapRequest resource type id token payload) := by
  have post : coapMethodPost < 256 := by decide
  have path : coapOptionUriPath < 65805 := by decide
  refine ⟨kind, post, small, Nat.le_trans (Nat.le_of_eq (token_length token)) (by decide), ?_⟩
  intro option member
  cases List.mem_singleton.mp member
  exact ⟨path, Nat.lt_of_le_of_lt short (by decide)⟩

end Building

section Slots

variable {cborEncodeMsg : Msg → Option (List UInt8)} {st : Firmware}

theorem genuine_positive (canonical : CanonicalEncoder cborEncodeMsg)
    (linked : Linked cborEncodeMsg st) {packet : Packet}
    (genuine : Genuine st.number st.run.log packet) : 0 < packet.slot.size := by
  obtain ⟨entry, present, -, ⟨bytes, encodes, holds⟩, -⟩ := genuine_carries canonical linked genuine
  have closed := linked.closed _ (List.mem_map_of_mem (List.mem_of_getElem? present))
  rw [canonical _ bytes encodes] at holds
  exact holds_positive (closed_size closed).1 holds

end Slots

section Requests

variable {Built : Type} {lib : CoapLibrary Built} {resource : List UInt8}
  {cborEncodeMsg : Msg → Option (List UInt8)} {st : Firmware}

/-- The memory from the payload of a slot on; `beyond` is what lies behind its array. -/
def slotMemory (slot : MessagePayload) (beyond : Nat → UInt8) (position : Nat) : UInt8 :=
  slot.payload.getD position (beyond position)

def requestedBytes (slot : MessagePayload) (beyond : Nat → UInt8) : List UInt8 :=
  (List.range slot.size).map (slotMemory slot beyond)

def nextRequest (lib : CoapLibrary Built) (resource : List UInt8) (nextId : Nat)
    (socket : List UInt8 → Int × Int) (beyond : Nat → UInt8) (st : Firmware)
    (slot : MessagePayload) : Sending :=
  clientGetSend lib resource nextId socket (slotMemory slot beyond) slot.size
    (!st.sender.confirmable) st.sender.index st.sender.conToken

theorem requested_inside {slot : MessagePayload} (inside : slot.size ≤ slot.payload.length)
    (beyond : Nat → UInt8) : requestedBytes slot beyond = slotBytes slot := by
  apply List.ext_getElem?
  intro position
  rw [requestedBytes, slotBytes, List.getElem?_map, List.getElem?_take]
  split
  · rename_i below
    have present := List.getElem?_eq_getElem (Nat.lt_of_lt_of_le below inside)
    rw [List.getElem?_range below, Option.map_some, slotMemory, List.getD_eq_getElem?_getD, present]
    rfl
  · rename_i past
    have none' : (List.range slot.size)[position]? = none := by
      apply List.getElem?_eq_none
      rw [List.length_range]
      exact Nat.le_of_not_lt past
    rw [none']
    rfl

/-- The packet of the call that comes next, and its bytes. If they fit into `coap_buf`,
only the socket can fail; if they do not, the call fails and nothing is sent. They fit if
the slot is not longer than its array. -/
structure Requested (lib : CoapLibrary Built) (resource : List UInt8) (nextId : Nat)
    (socket : List UInt8 → Int × Int) (beyond : Nat → UInt8)
    (cborEncodeMsg : Msg → Option (List UInt8)) (st : Firmware) (packet : Packet)
    (datagram : List UInt8) : Prop where
  request : packet.request = ⟨st.number, st.sender.index, st.sender.confirmable⟩
  slot : (slots st.run.sampler).slotAt st.sender.t st.sender.index = some packet.slot
  fits : packet.slot.size ≤ 1100 → datagram.length ≤ coapMsgMaxLen ∧
    requestedBytes packet.slot beyond = slotBytes packet.slot
  called : datagram.length ≤ coapMsgMaxLen →
    nextRequest lib resource nextId socket beyond st packet.slot =
      ⟨if (socket datagram).1 < 0 then -(socket datagram).2 else 0,
        if st.sender.confirmable then st.sender.index else st.sender.conToken, some datagram⟩
  refused : coapMsgMaxLen < datagram.length →
    (nextRequest lib resource nextId socket beyond st packet.slot).err < 0 ∧
      (nextRequest lib resource nextId socket beyond st packet.slot).sent = none
  reads : readMessage datagram = some (coapRequest resource
    (if packet.request.confirmable then coapTypeCon else coapTypeNonCon) nextId packet.request.slot
    (requestedBytes packet.slot beyond))
  seen : ∀ answer,
    answer.sendErr = (nextRequest lib resource nextId socket beyond st packet.slot).err →
      (sent st answer = some (if answer.sendErr < 0 then [] else [packet]) ∧
        (step st.sender answer).conToken =
          (nextRequest lib resource nextId socket beyond st packet.slot).conToken)
  message : CarriesMessage cborEncodeMsg st.run.log packet

/-- Whatever the network did before, the next request is one that its datagram spells. -/
theorem requests_spelled (canonical : CanonicalEncoder cborEncodeMsg)
    (complete : CompleteEncoder 1200 cborEncodeMsg)
    (followed : Follows (firmwareStep cborEncodeMsg) Paced startFirmware st)
    (runs : st.coapSend.running.isSome = true) (sending : st.sender.point = .send)
    (documented : Documented lib) (short : resource.length ≤ 160) {nextId : Nat}
    (small : nextId < 65536) (socket : List UInt8 → Int × Int) (beyond : Nat → UInt8) :
    ∃ packet datagram,
      Requested lib resource nextId socket beyond cborEncodeMsg st packet datagram := by
  have linked := followed_linked canonical complete followed
  obtain ⟨bank, runs'⟩ := Option.isSome_iff_exists.mp runs
  obtain ⟨slot, slotAt, long⟩ := sending_slot linked runs sending
  have sends (answer : Answer) : sent st answer = some (if answer.sendErr < 0 then [] else
      [⟨⟨st.number, st.sender.index, st.sender.confirmable⟩, slot⟩]) := by
    rw [sent, slotAt]
    by_cases fails : answer.sendErr < 0
    · rw [if_neg (fun succeeds => succeeds.2 fails), if_pos fails]
    · rw [if_pos ⟨sending, fails⟩, if_neg fails]
      rfl
  have genuine := sent_genuine linked runs' (sends ⟨0, 0, 0, none⟩) _ List.mem_cons_self
  have positive : 0 < slot.size := genuine_positive canonical linked genuine
  have carries := genuine_carries canonical linked genuine
  obtain ⟨called, refused⟩ := client_get_send_exact documented short (slotMemory slot beyond)
    positive nextId socket (!st.sender.confirmable) st.sender.index st.sender.conToken
  have kind : (if (!st.sender.confirmable) = true then coapTypeNonCon else coapTypeCon) =
      if st.sender.confirmable then coapTypeCon else coapTypeNonCon := by
    cases st.sender.confirmable <;> rfl
  have token : (if (!st.sender.confirmable) = false then st.sender.index else st.sender.conToken) =
      if st.sender.confirmable then st.sender.index else st.sender.conToken := by
    cases st.sender.confirmable <;> rfl
  rw [kind, token] at called refused
  have counted : ((List.range slot.size).map (slotMemory slot beyond)).length = slot.size := by
    rw [List.length_map, List.length_range]
  refine ⟨⟨⟨st.number, st.sender.index, st.sender.confirmable⟩, slot⟩, _, rfl, slotAt, ?_, called,
    fun large => ?_, ?_, ?_, carries⟩
  · intro inside
    have present : (List.range slot.size).map (slotMemory slot beyond) ≠ [] := fun empty => by
      rw [empty, List.length_nil] at counted
      exact absurd counted (Nat.ne_of_lt positive)
    refine ⟨?_, requested_inside (Nat.le_trans inside (Nat.le_of_eq long.symm)) beyond⟩
    have path := resource_length short
    rw [request_length present, counted]
    simp only [coapMsgMaxLen] at inside ⊢
    omega
  · obtain ⟨fails, same⟩ := refused large
    exact ⟨fails, congrArg Sending.sent same⟩
  · refine read_message_iff.mpr ⟨request_admitted ?_ small short, rfl⟩
    dsimp only
    split <;> decide
  · intro answer _
    refine ⟨sends answer, ?_⟩
    have kept : (nextRequest lib resource nextId socket beyond st slot).conToken =
        if st.sender.confirmable then st.sender.index else st.sender.conToken := by
      rcases Nat.lt_or_ge coapMsgMaxLen _ with large | room
      · exact congrArg Sending.conToken (refused large).2
      · exact congrArg Sending.conToken (called room)
    rw [kept, step, sending]
    simp only [stepSend]
    split
    · split <;> rfl
    · rfl

structure WrittenPacket where
  bytes : List UInt8
  room : Nat
  last : Nat

def WrittenPacket.append (packet : WrittenPacket) (bytes : List UInt8) (last : Nat) :
    Int × WrittenPacket :=
  if packet.bytes.length + bytes.length ≤ packet.room then
    (0, { packet with bytes := packet.bytes ++ bytes, last := last })
  else (-12, packet)

def writingLibrary : CoapLibrary WrittenPacket where
  packetInit maxLen _ type token code id :=
    if token.length ≤ 8 ∧ 4 + token.length ≤ maxLen then
      (0, ⟨header type code id token.length ++ token, maxLen, 0⟩)
    else (-22, ⟨[], maxLen, 0⟩)
  packetAppendOption request code value :=
    if request.last ≤ code then request.append (optionFormat.write ⟨code - request.last, value⟩) code
    else (-22, request)
  packetAppendPayloadMarker request := request.append [0xFF] request.last
  packetAppendPayload request payload :=
    if payload = [] then (-22, request) else request.append payload request.last
  data := WrittenPacket.bytes
  maxLen := WrittenPacket.room
  delta := WrittenPacket.last

theorem writing_documented : Documented writingLibrary where
  init _ _ _ _ _ short fits := ⟨_, if_pos ⟨short, fits⟩, rfl, rfl, rfl⟩
  option _ _ _ order fits := ⟨_, (if_pos order).trans (if_pos fits), rfl, rfl⟩
  marker _ fits := ⟨_, if_pos fits, rfl, rfl⟩
  payload _ _ present fits := ⟨_, (if_neg present).trans (if_pos fits), rfl, rfl⟩
  refused request payload large := by
    have fails : (writingLibrary.packetAppendPayload request payload).1 = -12 ∨
        (writingLibrary.packetAppendPayload request payload).1 = -22 := by
      simp only [writingLibrary]
      split
      · exact Or.inr rfl
      · exact Or.inl (congrArg Prod.fst (if_neg large))
    rcases fails with code | code <;> rw [code] <;> decide

theorem requests_spelled_cbor :
    ∃ st, Follows (firmwareStep (checkedEncoder 1200)) Paced startFirmware st ∧
      st.sender.point = .send ∧ ∃ packet datagram, Requested writingLibrary [99, 98, 111, 114] 1
        (fun datagram => (datagram.length, 0)) (fun _ => 0) (checkedEncoder 1200) st packet
        datagram := by
  have canonical := checked_encoder_canonical 1200
  have complete := checked_encoder_complete 1200
  obtain ⟨st, followed, runs, begins⟩ := first_upload canonical complete
    HandOff.lively_succeeds
  have paced := follows_weaken (fun _ _ fair => fair_paced fair) followed
  have sending : st.sender.point = .send :=
    congrArg (fun world : Delivery.World => world.sender.point) begins
  exact ⟨st, paced, sending, requests_spelled canonical complete paced runs sending
    writing_documented (by decide) (by decide) _ _⟩

end Requests

end ThingyAccel.CoapPackets
